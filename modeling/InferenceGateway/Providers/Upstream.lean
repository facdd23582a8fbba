import InferenceGateway.Http.Scanner
import InferenceGateway.Interaction.Program
import InferenceGateway.Providers.Types

/-! The streaming half of an HTTP provider: the answer of its upstream, the channel its
deltas go to, and the loop over the lines of the answer that both dialects share. -/
namespace Gateway.Providers
open Interaction Scanner

/-- What http.Client.Do returned: the status, the Retry-After header as ParseRetryAfter
reads it, the bytes of the body, and the error that ended it if it did not end cleanly. -/
structure Upstream where
  status : Int
  retryAfter : Duration := 0
  body : Bytes
  endsWithData : Bool := false
  failure : Option String := none

/-- The limit given to scanner.Buffer. -/
def maxLine : Nat := 1048576

def Upstream.scan (u : Upstream) : Scan := Scanner.scan maxLine u.endsWithData u.body u.failure

/-- The body's lines, whatever their length. -/
def Upstream.lines (u : Upstream) : List Bytes := (pieces u.body).map Piece.line

/-- The select around a send: the delta is received, or the context is done first. -/
inductive SendOp where
  | send (d : Delta)

@[reducible] def SendOp.Reply : SendOp → Type
  | .send _ => Option CtxError

abbrev StreamM := Program SendOp SendOp.Reply

def received : Event SendOp SendOp.Reply → Option Delta
  | ⟨.send d, none⟩ => some d
  | ⟨.send _, some _⟩ => none

/-- What the body of a read loop does with one line. -/
inductive Reaction where
  | skip
  | emit (d : Delta)
  | finish
  | fail (err : CallError)
  deriving DecidableEq

/-- The loop over the scanned lines; `ending` is what Stream returns after the last one. -/
def readLines {σ : Type} (react : σ → Bytes → Reaction × σ) (ending : Option CallError) :
    σ → List Bytes → StreamM (Option CallError)
  | _, [] => pure ending
  | s, line :: lines =>
      match react s line with
      | (.skip, s) => readLines react ending s lines
      | (.finish, _) => pure none
      | (.fail err, _) => pure (some err)
      | (.emit d, s) => do
          let done : Option CtxError ← Program.perform (.send d)
          match done with
          | some err => pure (some (.ctx err))
          | none => readLines react ending s lines

/-- The lines up to and including the first that satisfies a test. -/
def through (stop : Bytes → Bool) : List Piece → List Piece
  | [] => []
  | p :: ps => if stop p.line then [p] else p :: through stop ps

theorem head_mem_through (stop : Bytes → Bool) (p : Piece) (ps : List Piece) :
    p ∈ through stop (p :: ps) := by
  rw [through]
  split <;> exact List.mem_cons_self

/-- When a read loop can return nil after a body that ended cleanly: every line it reaches
fits the buffer, and it fails on none of them. -/
theorem readLines_succeeds_iff {σ : Type} {react : σ → Bytes → Reaction × σ}
    {stop fails : Bytes → Bool} {fits : Piece → Bool} {overflow : CallError}
    (stops : ∀ s line, (react s line).1 = .finish ↔ stop line = true)
    (breaks : ∀ s line, (∃ err, (react s line).1 = .fail err) ↔ fails line = true)
    (s : σ) (ps : List Piece) :
    (∃ tr, Program.Runs (readLines react (if ps.all fits then none else some overflow) s
        ((ps.takeWhile fits).map Piece.line)) tr none) ↔
      ∀ p ∈ through stop ps, fits p = true ∧ fails p.line = false := by
  induction ps generalizing s with
  | nil => simp [readLines, through]
  | cons p ps ih =>
      cases fit : fits p with
      | false =>
          refine iff_of_false ?_ ?_
          · simp [fit, readLines]
          · intro all
            have fits := (all p (head_mem_through stop p ps)).1
            rw [fit] at fits
            cases fits
      | true =>
          simp only [List.all_cons, fit, Bool.true_and, List.takeWhile_cons, if_true,
            List.map_cons, readLines]
          have stopped := stops s p.line
          have broken := breaks s p.line
          rcases reaction : react s p.line with ⟨r, s'⟩
          rw [reaction] at stopped broken
          have notStop : r ≠ .finish → stop p.line = false := by
            intro other
            rw [Bool.eq_false_iff]
            exact fun stop => other (stopped.mpr stop)
          have sound : (∀ err, r ≠ .fail err) → fails p.line = false := by
            intro other
            rw [Bool.eq_false_iff]
            intro fails
            obtain ⟨err, same⟩ := broken.mpr fails
            exact other err same
          -- A line that neither ends the loop nor breaks it leaves the verdict to the rest.
          have rest : r ≠ .finish → (∀ err, r ≠ .fail err) →
              ((∀ q ∈ through stop ps, fits q = true ∧ fails q.line = false) ↔
                ∀ q ∈ through stop (p :: ps), fits q = true ∧ fails q.line = false) := by
            intro goesOn fine
            simp [through, notStop goesOn, fit, sound fine]
          cases r with
          | skip =>
              rw [← rest nofun nofun]
              exact ih s'
          | finish =>
              have stop : stop p.line = true := stopped.mp rfl
              refine iff_of_true ⟨[], Program.runs_pure.mpr ⟨rfl, rfl⟩⟩ ?_
              simp [through, stop, fit, sound nofun]
          | fail err =>
              have fails : fails p.line = true := broken.mp ⟨err, rfl⟩
              refine iff_of_false ?_ ?_
              · rintro ⟨tr, run⟩
                cases (Program.runs_pure.mp run).2
              · intro all
                have sound := (all p (head_mem_through stop p ps)).2
                rw [fails] at sound
                cases sound
          | emit d =>
              rw [← rest nofun nofun, ← ih s']
              constructor
              · rintro ⟨tr, run⟩
                obtain ⟨done, tr', rfl, later⟩ := Program.runs_perform_bind.mp run
                cases done with
                | none => exact ⟨tr', later⟩
                | some err => cases (Program.runs_pure.mp later).2
              · rintro ⟨tr, run⟩
                exact ⟨_, Program.runs_perform_bind.mpr ⟨none, tr, rfl, run⟩⟩

end Gateway.Providers
