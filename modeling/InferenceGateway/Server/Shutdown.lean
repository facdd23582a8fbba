import InferenceGateway.Ledger.Closing
import InferenceGateway.Server.Usage

/-! How the gateway ends: Server.Run, and after it in main's run the Close of the ledger.
Requests, the ledger and run take turns in any order. -/
namespace Gateway.Server
open Gateway.Ledger (Entry Table Books Background World)
open Interaction
open Interaction.Program hiding pure perform

/-- Where run stands. -/
inductive Stage where
  | serving
  | shuttingDown
  | returned (drained : Bool) (runErr : Option String)
  | closing (drained : Bool) (runErr : Option String)
  | exited (drained : Bool) (runErr closeErr : Option String)
  deriving DecidableEq

/-- Requests may still come in: from new connections, or from those that were open when the
listener failed or the shutdown ran out of time. -/
def Stage.receives : Stage → Bool
  | .serving | .shuttingDown => true
  | .returned drained _ | .closing drained _ => !drained
  | .exited _ _ _ => false

def Stage.alive : Stage → Bool
  | .exited _ _ _ => false
  | _ => true

/-- http.Server.Shutdown has returned nil. -/
def Stage.drained : Stage → Bool
  | .serving | .shuttingDown => false
  | .returned drained _ | .closing drained _ | .exited drained _ _ => drained

/-- Before the Close of the ledger. -/
def Stage.isEarly : Stage → Bool
  | .closing _ _ | .exited _ _ _ => false
  | _ => true

/-- Run returns nil only after a Shutdown that did. -/
def Stage.Honest : Stage → Prop
  | .serving | .shuttingDown => True
  | .returned drained runErr | .closing drained runErr | .exited drained runErr _ =>
      runErr = none → drained = true

structure Daemon where
  pool : BookPool
  stage : Stage

inductive Happening where
  | start (r : Request)
  | act (i : Nat) (blocked : Bool) (answer : (op : Op) → op.Reply)
  | ledger (ev : Background)
  | serveFails (err : String)
  | signal
  | shutdownReturns (err serveErr : Option String)
  | close
  | closeReturns (err : Option String)

def isDone (p : Process Op Op.Reply (List (Unit × Event Op Op.Reply)) Ended) : Bool :=
  match p.program with
  | .pure _ => true
  | .request _ _ => false

def isClose : Background → Bool
  | .close => true
  | _ => false

namespace Daemon

/-- Background work on the ledger. -/
def background (g : Daemon) (ev : Background) : Daemon :=
  { g with pool := { g.pool with shared := g.pool.shared.advance ev } }

/-- http.Server.Shutdown returns nil when no handler is left, and an error whenever its time
is up; Run then returns that error, or the one of Serve. -/
def shutdownReturns (g : Daemon) : Option String → Option String → Option Daemon
  | some err, _ => some { g with stage := .returned false (some ("server: shutdown: " ++ err)) }
  | none, serveErr =>
      if g.pool.processes.all isDone then some { g with stage := .returned true serveErr } else none

/-- Close returns nil once the goroutine is done, and an error whenever its time is up. -/
def closeReturns (g : Daemon) (drained : Bool) (runErr : Option String) : Option String → Option Daemon
  | some err => some { g with stage := .exited drained runErr (some err) }
  | none =>
      if g.pool.shared.ledger.writer.phase = .done then
        some { g with stage := .exited drained runErr none }
      else none

def step (deps : ChatDeps) (g : Daemon) : Happening → Option Daemon
  | .start r =>
      if g.stage.receives then
        ((bookkeeping deps).step g.pool (.start r)).map fun pool => { g with pool }
      else none
  | .act i blocked answer =>
      if g.stage.alive then
        ((bookkeeping deps).step g.pool (.act i ⟨[], blocked, answer⟩)).map fun pool => { g with pool }
      else none
  | .ledger ev => if g.stage.alive && !isClose ev then some (g.background ev) else none
  | .serveFails err =>
      if g.stage = .serving then some { g with stage := .returned false (some err) } else none
  | .signal => if g.stage = .serving then some { g with stage := .shuttingDown } else none
  | .shutdownReturns err serveErr =>
      if g.stage = .shuttingDown then g.shutdownReturns err serveErr else none
  | .close =>
      match g.stage with
      | .returned drained runErr => some { g.background .close with stage := .closing drained runErr }
      | _ => none
  | .closeReturns err =>
      match g.stage with
      | .closing drained runErr => g.closeReturns drained runErr err
      | _ => none

/-- What run returns, where it has. -/
def result (g : Daemon) : Option (Option String) :=
  match g.stage with
  | .exited _ runErr _ => some (runErr.map ("main: server: " ++ ·))
  | _ => none

def run (deps : ChatDeps) (g : Daemon) : List Happening → Option Daemon
  | [] => some g
  | ev :: events => (g.step deps ev).bind fun next => run deps next events

def start (bufferSize batchSize dropped : Nat) (old : Table) : Daemon :=
  ⟨⟨.start bufferSize batchSize dropped old, []⟩, .serving⟩

/-- The steps of run itself, without Close. -/
inductive Turns (g : Daemon) : Stage → Prop
  | failed (err : String) : g.stage = .serving → Turns g (.returned false (some err))
  | signalled : g.stage = .serving → Turns g .shuttingDown
  | timedOut (err : String) : g.stage = .shuttingDown → Turns g (.returned false (some err))
  | drained (serveErr : Option String) : g.stage = .shuttingDown →
      g.pool.processes.all isDone = true → Turns g (.returned true serveErr)
  | abandoned {drained : Bool} {runErr : Option String} (err : String) :
      g.stage = .closing drained runErr → Turns g (.exited drained runErr (some err))
  | closed {drained : Bool} {runErr : Option String} : g.stage = .closing drained runErr →
      g.pool.shared.ledger.writer.phase = .done → Turns g (.exited drained runErr none)

/-- What a step can come to. -/
inductive Moved (deps : ChatDeps) (g : Daemon) : Daemon → Prop
  | started (r : Request) {pool : BookPool} : g.stage.receives = true →
      (bookkeeping deps).step g.pool (.start r) = some pool → Moved deps g { g with pool }
  | acted (i : Nat) (blocked : Bool) (answer : (op : Op) → op.Reply) {pool : BookPool} :
      g.stage.alive = true →
      (bookkeeping deps).step g.pool (.act i ⟨[], blocked, answer⟩) = some pool →
      Moved deps g { g with pool }
  | worked (ev : Background) : g.stage.alive = true → isClose ev = false → Moved deps g (g.background ev)
  | turned {stage : Stage} : Turns g stage → Moved deps g { g with stage }
  | closes {drained : Bool} {runErr : Option String} : g.stage = .returned drained runErr →
      Moved deps g { g.background .close with stage := .closing drained runErr }

variable {deps : ChatDeps} {g next mid : Daemon} {ev : Happening} {dropped : Nat} {old : Table}

theorem moved_of_step (h : g.step deps ev = some next) : Moved deps g next := by
  cases ev with
  | start r =>
      simp only [step] at h
      split at h
      · rename_i receives
        obtain ⟨pool, moved, rfl⟩ := Option.map_eq_some_iff.mp h
        exact .started r receives moved
      · cases h
  | act i blocked answer =>
      simp only [step] at h
      split at h
      · rename_i alive
        obtain ⟨pool, moved, rfl⟩ := Option.map_eq_some_iff.mp h
        exact .acted i blocked answer alive moved
      · cases h
  | ledger ev =>
      simp only [step] at h
      split at h
      · rename_i allowed
        cases h
        rw [Bool.and_eq_true, Bool.not_eq_true'] at allowed
        exact .worked ev allowed.1 allowed.2
      · cases h
  | serveFails err =>
      simp only [step] at h
      split at h
      · rename_i serving
        cases h
        exact .turned (.failed err serving)
      · cases h
  | signal =>
      simp only [step] at h
      split at h
      · rename_i serving
        cases h
        exact .turned (.signalled serving)
      · cases h
  | shutdownReturns err serveErr =>
      simp only [step] at h
      split at h
      · rename_i stopping
        cases err with
        | some err =>
            cases h
            exact .turned (.timedOut _ stopping)
        | none =>
            simp only [shutdownReturns] at h
            split at h
            · rename_i done
              cases h
              exact .turned (.drained serveErr stopping done)
            · cases h
      · cases h
  | close =>
      simp only [step] at h
      split at h
      · rename_i drained runErr back
        cases h
        exact .closes back
      · cases h
  | closeReturns err =>
      simp only [step] at h
      split at h
      · rename_i drained runErr closing
        cases err with
        | some err =>
            cases h
            exact .turned (.abandoned err closing)
        | none =>
            simp only [closeReturns] at h
            split at h
            · rename_i done
              cases h
              exact .turned (.closed closing done)
            · cases h
      · cases h

/-- Background work is one step of the ledger's world or none. -/
theorem background_ledger (g : Daemon) (ev : Background) :
    (g.background ev).pool.shared.ledger = g.pool.shared.ledger ∨
      ∃ e, g.pool.shared.ledger.step e = some (g.background ev).pool.shared.ledger ∧
        e.isRecord = false ∧ (e = .close → isClose ev = true) := by
  simp only [background, Books.advance]
  cases moved : g.pool.shared.step ev with
  | none => exact .inl rfl
  | some b =>
      obtain ⟨ledger, stepped, rfl⟩ := Option.map_eq_some_iff.mp moved
      refine .inr ⟨_, stepped, ?_, ?_⟩
      · cases ev <;> rfl
      · cases ev <;> simp [Background.event, isClose]

theorem acted_ledger {pool : BookPool} {i : Nat} {blocked : Bool} {answer : (op : Op) → op.Reply}
    (moved : (bookkeeping deps).step g.pool (.act i ⟨[], blocked, answer⟩) = some pool) :
    pool.shared.ledger = g.pool.shared.ledger ∨
      ∃ e, g.pool.shared.ledger.step (.record e blocked) = some pool.shared.ledger := by
  obtain ⟨op, continue_, past, found, rfl⟩ := System.act_cases moved
  cases op with
  | record entry => exact .inr ⟨entry, rfl⟩
  | _ => exact .inl rfl

theorem undone_of_act {pool : BookPool} {i : Nat} {shift : Shift}
    (moved : (bookkeeping deps).step g.pool (.act i shift) = some pool) :
    g.pool.processes.all isDone ≠ true := by
  obtain ⟨op, continue_, past, found, -⟩ := System.act_cases moved
  intro done
  have here := List.all_eq_true.mp done _ (List.mem_of_getElem? found)
  cases here

/-- What holds in every state of the gateway. -/
structure Sound (deps : ChatDeps) (dropped : Nat) (old : Table) (g : Daemon) : Prop where
  kept : Kept deps dropped old g.pool
  done : g.stage.drained = true → g.pool.processes.all isDone = true
  honest : g.stage.Honest
  live : g.stage.isEarly = true →
    g.pool.shared.ledger.writer.cancelled = false ∧ g.pool.shared.ledger.writer.Ends

theorem start_sound (deps : ChatDeps) (bufferSize batchSize dropped : Nat) (old : Table) :
    (start bufferSize batchSize dropped old).Sound deps dropped old :=
  ⟨⟨nofun, Books.start_explained _ _ _ _, .refl _⟩, fun _ => rfl, trivial,
    fun _ => ⟨rfl, Ledger.Writer.ends_of_phase (.inl rfl)⟩⟩

theorem Sound.background_kept (h : g.Sound deps dropped old) (ev : Background) :
    Kept deps dropped old (g.background ev).pool :=
  ⟨h.kept.traced, h.kept.explained.advance ev, by
    rw [show (g.background ev).pool.shared.ledger.recorded = g.pool.shared.ledger.recorded from
      Books.advance_recorded _ _]
    exact h.kept.recorded⟩

theorem Sound.turned (h : g.Sound deps dropped old) {stage : Stage} (turns : Turns g stage) :
    Sound deps dropped old { g with stage } := by
  cases turns with
  | failed err serving => exact ⟨h.kept, nofun, nofun, fun _ => h.live (by rw [serving]; rfl)⟩
  | signalled serving => exact ⟨h.kept, nofun, trivial, fun _ => h.live (by rw [serving]; rfl)⟩
  | timedOut err stopping => exact ⟨h.kept, nofun, nofun, fun _ => h.live (by rw [stopping]; rfl)⟩
  | drained serveErr stopping done =>
      exact ⟨h.kept, fun _ => done, fun _ => rfl, fun _ => h.live (by rw [stopping]; rfl)⟩
  | abandoned err closing =>
      have done := h.done
      have honest := h.honest
      rw [closing] at done honest
      exact ⟨h.kept, done, honest, nofun⟩
  | closed closing _ =>
      have done := h.done
      have honest := h.honest
      rw [closing] at done honest
      exact ⟨h.kept, done, honest, nofun⟩

theorem Sound.step (h : g.Sound deps dropped old) (moved : g.step deps ev = some next) :
    next.Sound deps dropped old := by
  cases moved_of_step moved with
  | started r receives served =>
      refine ⟨h.kept.step served, fun drained => ?_, h.honest, fun early => ?_⟩
      · change g.stage.drained = true at drained
        cases stage : g.stage <;> simp_all [Stage.drained, Stage.receives]
      · cases served
        exact h.live early
  | acted i blocked answer alive served =>
      refine ⟨h.kept.step served, fun drained => ?_, h.honest, fun early => ?_⟩
      · exact absurd (h.done drained) (undone_of_act served)
      · obtain ⟨open_, ends⟩ := h.live early
        rcases acted_ledger served with same | ⟨e, stepped⟩
        · simp only [same]
          exact ⟨open_, ends⟩
        · exact ⟨(World.step_cancelled stepped nofun).trans open_,
            World.step_ends ends (fun _ => open_) stepped⟩
  | worked ev alive other =>
      refine ⟨h.background_kept ev, h.done, h.honest, fun early => ?_⟩
      obtain ⟨open_, ends⟩ := h.live early
      rcases g.background_ledger ev with same | ⟨e, stepped, quiet, closes⟩
      · rw [same]
        exact ⟨open_, ends⟩
      · refine ⟨(World.step_cancelled stepped ?_).trans open_,
          World.step_ends ends (fun _ => open_) stepped⟩
        rintro rfl
        rw [closes rfl] at other
        cases other
  | turned turns => exact h.turned turns
  | closes back =>
      have done := h.done
      have honest := h.honest
      rw [back] at done honest
      exact ⟨h.background_kept .close, done, honest, nofun⟩

theorem Sound.run {events : List Happening} (h : g.Sound deps dropped old)
    (ran : g.run deps events = some next) : next.Sound deps dropped old := by
  induction events generalizing g with
  | nil =>
      cases ran
      exact h
  | cons ev events ih =>
      obtain ⟨middle, moved, rest⟩ := Option.bind_eq_some_iff.mp ran
      exact ih (h.step moved) rest

/-- What holds from the Close on that found the gateway at `mid`. -/
structure After (mid : Daemon) (drained : Bool) (g : Daemon) : Prop where
  settles : mid.pool.shared.ledger.Settles g.pool.shared.ledger
  stage : (∃ runErr, g.stage = .closing drained runErr) ∨
    ∃ runErr closeErr, g.stage = .exited drained runErr closeErr ∧
      (closeErr = none → g.pool.shared.ledger.writer.phase = .done)
  still : drained = true → g.pool.processes = mid.pool.processes

theorem Sound.close (h : g.Sound deps dropped old) (closed : g.step deps .close = some next) :
    g.After g.stage.drained next := by
  simp only [Daemon.step] at closed
  split at closed
  · rename_i drained runErr back
    cases closed
    obtain ⟨open_, ends⟩ := h.live (by rw [back]; rfl)
    exact ⟨World.settles_close ends open_, .inl ⟨runErr, by rw [back]; rfl⟩, fun _ => rfl⟩
  · cases closed

theorem After.closing {drained : Bool} (h : mid.After drained g) (alive : g.stage.alive = true) :
    ∃ runErr, g.stage = .closing drained runErr := by
  rcases h.stage with closing | ⟨runErr, closeErr, exited, -⟩
  · exact closing
  · rw [exited] at alive
    cases alive

theorem After.step {drained : Bool} (sound : g.Sound deps dropped old) (h : mid.After drained g)
    (moved : g.step deps ev = some next) : mid.After drained next := by
  obtain ⟨kept, lost, refused, accounted⟩ := sound.kept.explained
  cases moved_of_step moved with
  | started r receives served =>
      have alive : g.stage.alive = true := by
        cases stage : g.stage <;> simp_all [Stage.alive, Stage.receives]
      obtain ⟨runErr, closing⟩ := h.closing alive
      rw [closing] at receives
      cases served
      refine ⟨h.settles, .inl ⟨runErr, closing⟩, ?_⟩
      rintro rfl
      cases receives
  | acted i blocked answer alive served =>
      obtain ⟨runErr, closing⟩ := h.closing alive
      refine ⟨?_, .inl ⟨runErr, closing⟩, ?_⟩
      · rcases acted_ledger served with same | ⟨e, stepped⟩
        · simp only [same]
          exact h.settles
        · exact h.settles.step accounted.ledger stepped
      · rintro rfl
        exact absurd (sound.done (by rw [closing]; rfl)) (undone_of_act served)
  | worked ev alive _ =>
      obtain ⟨runErr, closing⟩ := h.closing alive
      refine ⟨?_, .inl ⟨runErr, closing⟩, h.still⟩
      rcases g.background_ledger ev with same | ⟨e, stepped, -, -⟩
      · rw [same]
        exact h.settles
      · exact h.settles.step accounted.ledger stepped
  | turned turns =>
      refine ⟨h.settles, .inr ?_, h.still⟩
      have settled : ∀ {stage}, g.stage = stage → stage.isEarly = true → False := by
        intro stage here early
        rcases h.stage with ⟨runErr, closing⟩ | ⟨runErr, closeErr, exited, -⟩
        · rw [← here, closing] at early
          cases early
        · rw [← here, exited] at early
          cases early
      cases turns with
      | failed err serving => exact (settled serving rfl).elim
      | signalled serving => exact (settled serving rfl).elim
      | timedOut err stopping => exact (settled stopping rfl).elim
      | drained serveErr stopping _ => exact (settled stopping rfl).elim
      | abandoned err closing =>
          obtain ⟨runErr, same⟩ := h.closing (by rw [closing]; rfl)
          rw [closing] at same
          cases same
          exact ⟨_, _, rfl, nofun⟩
      | closed closing done =>
          obtain ⟨runErr, same⟩ := h.closing (by rw [closing]; rfl)
          rw [closing] at same
          cases same
          exact ⟨_, _, rfl, fun _ => done⟩
  | closes back =>
      obtain ⟨runErr, closing⟩ := h.closing (by rw [back]; rfl)
      rw [back] at closing
      cases closing

theorem After.run {drained : Bool} {events : List Happening} (sound : g.Sound deps dropped old)
    (h : mid.After drained g) (ran : g.run deps events = some next) : mid.After drained next := by
  induction events generalizing g with
  | nil =>
      cases ran
      exact h
  | cons ev events ih =>
      obtain ⟨middle, moved, rest⟩ := Option.bind_eq_some_iff.mp ran
      exact ih (sound.step moved) (h.step sound moved) rest

theorem After.exited {drained ended : Bool} {runErr : Option String} (h : mid.After drained g)
    (exited : g.stage = .exited ended runErr none) :
    ended = drained ∧ g.pool.shared.ledger.writer.phase = .done := by
  rcases h.stage with ⟨_, closing⟩ | ⟨_, _, here, done⟩
  · rw [exited] at closing
    cases closing
  · rw [exited] at here
    cases here
    exact ⟨rfl, done rfl⟩

/-- Where run has returned nil, the shutdown was a clean one. -/
theorem Sound.drained_of_result (h : g.Sound deps dropped old) {drained : Bool}
    {runErr closeErr : Option String} (exited : g.stage = .exited drained runErr closeErr)
    (result : g.result = some none) : drained = true := by
  have honest := h.honest
  rw [exited] at honest
  apply honest
  simpa [Daemon.result, exited] using result

end Daemon

/-- Whatever ended Run, and though requests may go on recording: once Close has returned nil,
the table, the failed inserts and the counter have between them every entry that had been
recorded when it began. If run returns nil besides, no handler is left and they have every
entry there is. -/
theorem close_settles_ledger {deps : ChatDeps} {bufferSize batchSize dropped : Nat} {old : Table}
    {mid closing final : Daemon} {drained : Bool} {runErr : Option String}
    {events more : List Happening}
    (before : (Daemon.start bufferSize batchSize dropped old).run deps events = some mid)
    (closed : mid.step deps .close = some closing) (later : closing.run deps more = some final)
    (exited : final.stage = .exited drained runErr none) :
    ∃ kept lost refused : List Entry,
      (∃ new : Table, final.pool.shared.table = old ++ new ∧
        new.map Ledger.Row.entry = kept.map Entry.stored) ∧
      (∀ e ∈ lost, ∃ call ∈ final.pool.shared.ledger.inserts, e ∈ call.entries ∧ call.err ≠ none) ∧
      refused.length + dropped = final.pool.shared.ledger.ledgerDroppedTotal ∧
      (filed mid.pool).Subperm (kept ++ lost ++ refused) ∧
      (final.result = some none → final.pool.processes.all isDone = true ∧
        (filed final.pool).Perm (kept ++ lost ++ refused)) := by
  have sound := (Daemon.start_sound deps bufferSize batchSize dropped old).run before
  have after := (sound.close closed).run (sound.step closed) later
  have soundAfter := (sound.step closed).run later
  obtain ⟨same, done⟩ := after.exited exited
  obtain ⟨kept, lost, refused, accounted⟩ := soundAfter.kept.explained
  obtain ⟨_, _, refusedBefore, accountedBefore⟩ := sound.kept.explained
  have settled : (filed mid.pool).Subperm (kept ++ lost ++ refused) :=
    sound.kept.recorded.symm.subperm.trans
      (accounted.settled after.settles done accountedBefore.recorded)
  refine ⟨kept, lost, refused, accounted.stored, accounted.failed, accounted.refused_length, settled, ?_⟩
  intro clean
  have drained := soundAfter.drained_of_result exited clean
  refine ⟨soundAfter.done (by rw [exited]; exact drained), ?_⟩
  have still : filed final.pool = filed mid.pool := by
    simp only [filed, Pool.gather, after.still (same ▸ drained)]
  have whole := soundAfter.kept.recorded.symm.trans accounted.conserved
  rw [still] at whole ⊢
  refine settled.perm_of_length_le ?_
  rw [whole.length_eq]
  simp only [List.length_append]
  omega

/-- One request, answered and recorded before the signal; its row goes out with Close. -/
def oneRequest : List Happening :=
  .start (asked hello) :: List.replicate 18 (.act 0 false shortAnswer) ++
    [.signal, .shutdownReturns none none]

def lastInsert : List Happening :=
  [.ledger .ctxDone, .ledger .drain, .ledger .drain, .ledger (.copied ⟨.answered, 1000, ""⟩),
    .closeReturns none]

theorem oneRequest_settled :
    ∃ mid closing final, (Daemon.start 4 2 0 []).run oneProvider oneRequest = some mid ∧
      mid.step oneProvider .close = some closing ∧ closing.run oneProvider lastInsert = some final ∧
      final.pool.shared.table.length = 1 ∧ final.pool.processes.all isDone = true ∧
      ∃ kept lost refused : List Entry, (filed mid.pool).Subperm (kept ++ lost ++ refused) ∧
        (filed final.pool).Perm (kept ++ lost ++ refused) := by
  have facts : (((Daemon.start 4 2 0 []).run oneProvider oneRequest).bind fun mid =>
      (mid.step oneProvider .close).bind fun closing => (closing.run oneProvider lastInsert).map fun final =>
        decide (final.stage = .exited true none none ∧ final.pool.shared.table.length = 1)) =
      some true := by decide +kernel
  obtain ⟨mid, before, facts⟩ := Option.bind_eq_some_iff.mp facts
  obtain ⟨closing, closed, facts⟩ := Option.bind_eq_some_iff.mp facts
  obtain ⟨final, later, facts⟩ := Option.map_eq_some_iff.mp facts
  obtain ⟨exited, one⟩ := of_decide_eq_true facts
  obtain ⟨kept, lost, refused, -, -, -, early, clean⟩ := close_settles_ledger before closed later exited
  have result : final.result = some none := by simp [Daemon.result, exited]
  exact ⟨mid, closing, final, before, closed, later, one, (clean result).1, kept, lost, refused, early,
    (clean result).2⟩

end Gateway.Server
