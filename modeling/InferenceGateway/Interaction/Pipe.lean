import InferenceGateway.Interaction.Program

/-! A goroutine that feeds a range loop over an unbuffered channel. It closes the channel
once it has returned and then leaves its result in a second channel with room for one. A
send is given up when the goroutine's context is done; the loop may stop early and drains
the channel then. The steps of the two sides interleave freely. -/
namespace Interaction

/-- A send inside a select: the item, and the replies for a receiver that took it and for a
context that was done first. -/
structure Outlet (E : Type) (R : E → Type) (δ κ : Type) where
  item : E → δ
  sent : (e : E) → R e
  cancelled : (e : E) → κ → R e
  received : Event E R → Option δ
  received_sent : ∀ e, received ⟨e, sent e⟩ = some (item e)
  received_cancelled : ∀ e k, received ⟨e, cancelled e k⟩ = none
  sent_or_cancelled : ∀ e (r : R e), r = sent e ∨ ∃ k, r = cancelled e k

namespace Pipe

/-- `reported` is after the result has gone into the channel with room for one. -/
inductive Producer (E : Type) (R : E → Type) (ε : Type) where
  | running (program : Program E R ε)
  | closed (result : ε)
  | reported (result : ε)

/-- `between` is at the channel: in the loop as long as it has not stopped, and draining it
afterwards. `working` is inside the loop's body, `awaiting` at the receive of the result. -/
inductive Consumer (F : Type) (Q : F → Type) (σ β ε : Type) where
  | between (left : Except β σ)
  | working (body : Program F Q (Except β σ))
  | awaiting (left : Except β σ)
  | returned (left : Except β σ) (result : ε)

/-- Both sides, with what each has done so far. -/
structure State (E : Type) (R : E → Type) (F : Type) (Q : F → Type) (σ β ε : Type) where
  producer : Producer E R ε
  consumer : Consumer F Q σ β ε
  sends : List (Event E R) := []
  calls : List (Event F Q) := []

variable {E F : Type} {R : E → Type} {Q : F → Type} {δ κ ε σ β : Type}

def start (program : Program E R ε) (s : σ) : State E R F Q σ β ε where
  producer := .running program
  consumer := .between (.ok s)

/-- `done` says which reasons the context may be done for. -/
inductive Step (out : Outlet E R δ κ) (done : κ → Prop) (body : σ → δ → Program F Q (Except β σ)) :
    State E R F Q σ β ε → State E R F Q σ β ε → Prop
  | receive {e : E} {next : R e → Program E R ε} {s : σ} {sends : List (Event E R)}
      {calls : List (Event F Q)} :
      Step out done body ⟨.running (.request e next), .between (.ok s), sends, calls⟩
        ⟨.running (next (out.sent e)), .working (body s (out.item e)),
          sends ++ [⟨e, out.sent e⟩], calls⟩
  | drop {e : E} {next : R e → Program E R ε} {stop : β} {sends : List (Event E R)}
      {calls : List (Event F Q)} :
      Step out done body ⟨.running (.request e next), .between (.error stop), sends, calls⟩
        ⟨.running (next (out.sent e)), .between (.error stop), sends ++ [⟨e, out.sent e⟩], calls⟩
  | cancel {e : E} {next : R e → Program E R ε} {consumer : Consumer F Q σ β ε}
      {sends : List (Event E R)} {calls : List (Event F Q)} {k : κ} (isDone : done k) :
      Step out done body ⟨.running (.request e next), consumer, sends, calls⟩
        ⟨.running (next (out.cancelled e k)), consumer, sends ++ [⟨e, out.cancelled e k⟩], calls⟩
  | close {x : ε} {consumer : Consumer F Q σ β ε} {sends : List (Event E R)}
      {calls : List (Event F Q)} :
      Step out done body ⟨.running (.pure x), consumer, sends, calls⟩ ⟨.closed x, consumer, sends, calls⟩
  | report {x : ε} {consumer : Consumer F Q σ β ε} {sends : List (Event E R)}
      {calls : List (Event F Q)} :
      Step out done body ⟨.closed x, consumer, sends, calls⟩ ⟨.reported x, consumer, sends, calls⟩
  | call {producer : Producer E R ε} {f : F} {next : Q f → Program F Q (Except β σ)}
      {sends : List (Event E R)} {calls : List (Event F Q)} (q : Q f) :
      Step out done body ⟨producer, .working (.request f next), sends, calls⟩
        ⟨producer, .working (next q), sends, calls ++ [⟨f, q⟩]⟩
  | leave {producer : Producer E R ε} {left : Except β σ} {sends : List (Event E R)}
      {calls : List (Event F Q)} :
      Step out done body ⟨producer, .working (.pure left), sends, calls⟩
        ⟨producer, .between left, sends, calls⟩
  | exhaust {producer : Producer E R ε} {left : Except β σ} {sends : List (Event E R)}
      {calls : List (Event F Q)} (shut : ∀ p, producer ≠ .running p) :
      Step out done body ⟨producer, .between left, sends, calls⟩ ⟨producer, .awaiting left, sends, calls⟩
  | collect {x : ε} {left : Except β σ} {sends : List (Event E R)} {calls : List (Event F Q)} :
      Step out done body ⟨.reported x, .awaiting left, sends, calls⟩
        ⟨.reported x, .returned left x, sends, calls⟩

abbrev Reaches (out : Outlet E R δ κ) (done : κ → Prop) (body : σ → δ → Program F Q (Except β σ)) :
    State E R F Q σ β ε → State E R F Q σ β ε → Prop := Relation.ReflTransGen (Step out done body)

/-- The loop over a list of items that is known beforehand. -/
def consume (body : σ → δ → Program F Q (Except β σ)) :
    Except β σ → List δ → Program F Q (Except β σ)
  | .error stop, _ => pure (.error stop)
  | .ok s, [] => pure (.ok s)
  | .ok s, d :: rest => do
      let left ← body s d
      consume body left rest

variable {out : Outlet E R δ κ} {done : κ → Prop} {body : σ → δ → Program F Q (Except β σ)}

@[simp] theorem consume_nil (left : Except β σ) : consume body left [] = pure left := by
  cases left <;> rfl

@[simp] theorem consume_error (stop : β) (items : List δ) :
    consume body (.error stop) items = pure (.error stop) := by
  cases items <;> rfl

theorem consume_cons (s : σ) (d : δ) (rest : List δ) :
    consume body (.ok s) (d :: rest) = body s d >>= fun left => consume body left rest := rfl

/-- The items a receiver has taken. -/
def items (out : Outlet E R δ κ) (sends : List (Event E R)) : List δ := sends.filterMap out.received

theorem items_sent (sends : List (Event E R)) (e : E) :
    items out (sends ++ [⟨e, out.sent e⟩]) = items out sends ++ [out.item e] := by
  simp [items, out.received_sent]

theorem items_cancelled (sends : List (Event E R)) (e : E) (k : κ) :
    items out (sends ++ [⟨e, out.cancelled e k⟩]) = items out sends := by
  simp [items, out.received_cancelled]

/-- What is left of the goroutine's own run. -/
def Producer.rest : Producer E R ε → Program E R ε
  | .running program => program
  | .closed result | .reported result => pure result

/-- What is left of the loop apart from the items it has not taken. -/
def Consumer.rest : Consumer F Q σ β ε → Program F Q (Except β σ)
  | .working body => body
  | .between left | .awaiting left | .returned left _ => pure left

/-- The goroutine has not been left behind by the loop that waits for it. -/
def Consumer.Waits (producer : Producer E R ε) : Consumer F Q σ β ε → Prop
  | .awaiting _ => ∀ p, producer ≠ .running p
  | .returned _ x => producer = .reported x
  | .between _ | .working _ => True

/-- Whatever both sides still do completes what they have done to a run of the goroutine by
itself and to a run of the loop over the items that were taken. -/
structure Sound (out : Outlet E R δ κ) (body : σ → δ → Program F Q (Except β σ))
    (program : Program E R ε) (s : σ) (st : State E R F Q σ β ε) : Prop where
  producer : ∀ {tail x}, Program.Runs st.producer.rest tail x → Program.Runs program (st.sends ++ tail) x
  consumer : ∀ {more tail left},
    Program.Runs (st.consumer.rest >>= fun left => consume body left more) tail left →
      Program.Runs (consume body (.ok s) (items out st.sends ++ more)) (st.calls ++ tail) left
  waits : st.consumer.Waits st.producer

theorem Sound.start (program : Program E R ε) (s : σ) :
    Sound out body program s (start program s) where
  producer run := run
  consumer run := run
  waits := trivial

/-- A loop that waits for the goroutine finds it past its last send. -/
theorem Consumer.Waits.of_running {p : Program E R ε} {producer : Producer E R ε}
    {consumer : Consumer F Q σ β ε} (h : consumer.Waits (.running p)) : consumer.Waits producer := by
  cases consumer with
  | between left => trivial
  | working q => trivial
  | awaiting left => exact absurd rfl (h p)
  | returned left x => cases h

theorem Sound.step {program : Program E R ε} {s : σ} {st next : State E R F Q σ β ε}
    (h : Sound out body program s st) (moved : Step out done body st next) :
    Sound out body program s next := by
  obtain ⟨producer, consumer, waits⟩ := h
  cases moved with
  | receive =>
      refine ⟨fun run => ?_, fun run => ?_, trivial⟩
      · rw [List.append_assoc]
        exact producer (.request _ run)
      · rw [items_sent, List.append_assoc]
        exact consumer run
  | drop =>
      refine ⟨fun run => ?_, fun run => ?_, trivial⟩
      · rw [List.append_assoc]
        exact producer (.request _ run)
      · rw [items_sent, List.append_assoc]
        -- A loop that has stopped makes nothing of the item.
        exact consumer (by simpa [Consumer.rest] using run)
  | cancel isDone =>
      refine ⟨fun run => ?_, fun run => ?_, waits.of_running⟩
      · rw [List.append_assoc]
        exact producer (.request _ run)
      · rw [items_cancelled]
        exact consumer run
  | close => exact ⟨producer, consumer, waits.of_running⟩
  | @report x reader sends calls =>
      refine ⟨producer, consumer, ?_⟩
      cases reader with
      | between left => trivial
      | working q => trivial
      | awaiting left => exact nofun
      | returned left x => cases waits
  | call q =>
      refine ⟨producer, fun run => ?_, trivial⟩
      rw [List.append_assoc]
      exact consumer (.request q run)
  | leave => exact ⟨producer, consumer, trivial⟩
  | exhaust shut => exact ⟨producer, consumer, shut⟩
  | collect => exact ⟨producer, consumer, rfl⟩

theorem Sound.of_reaches {program : Program E R ε} {s : σ} {st : State E R F Q σ β ε}
    (reached : Reaches out done body (Pipe.start program s) st) : Sound out body program s st := by
  induction reached with
  | refl => exact .start program s
  | tail _ moved ih => exact ih.step moved

/-- The body of the loop, on its own. -/
theorem reaches_of_runs {producer : Producer E R ε} {q : Program F Q (Except β σ)}
    {sends : List (Event E R)} {calls tr : List (Event F Q)} {left : Except β σ}
    (run : Program.Runs q tr left) :
    Reaches out done body ⟨producer, .working q, sends, calls⟩
      ⟨producer, .between left, sends, calls ++ tr⟩ := by
  induction run generalizing calls with
  | pure left =>
      rw [List.append_nil]
      exact .single .leave
  | request q _ ih =>
      rw [List.append_cons]
      exact .head (.call q) ih

/-- Every run of the goroutine and of the loop over its items is taken by some schedule. -/
theorem reaches_returned {program : Program E R ε} {left₀ left : Except β σ} {x : ε}
    {sends₀ sends : List (Event E R)} {calls₀ calls : List (Event F Q)} (any : ∀ k, done k)
    (producing : Program.Runs program sends x)
    (consuming : Program.Runs (consume body left₀ (items out sends)) calls left) :
    Reaches out done body ⟨.running program, .between left₀, sends₀, calls₀⟩
      ⟨.reported x, .returned left x, sends₀ ++ sends, calls₀ ++ calls⟩ := by
  induction producing generalizing left₀ sends₀ calls₀ calls with
  | pure x =>
      rw [items, List.filterMap_nil, consume_nil] at consuming
      obtain ⟨rfl, rfl⟩ := Program.runs_pure.mp consuming
      rw [List.append_nil, List.append_nil]
      exact .head .close (.head (.exhaust nofun) (.head .report (.single .collect)))
  | @request e next tr x r rest ih =>
      rw [List.append_cons]
      rcases out.sent_or_cancelled e r with rfl | ⟨k, rfl⟩
      · rw [items, List.filterMap_cons_some (out.received_sent e)] at consuming
        cases left₀ with
        | error stop =>
            rw [consume_error] at consuming
            exact .head .drop (ih (by rwa [consume_error]))
        | ok s =>
            rw [consume_cons] at consuming
            obtain ⟨first, middle, later, rfl, inside, after⟩ := Program.runs_bind.mp consuming
            rw [← List.append_assoc]
            exact .head .receive ((reaches_of_runs inside).trans (ih after))
      · rw [items, List.filterMap_cons_none (out.received_cancelled e k)] at consuming
        exact .head (.cancel (any k)) (ih consuming)

/-- What the loop can return, and what both sides have done by then, is what they do one
after the other: the goroutine by itself, then the loop over the items that were taken. -/
theorem returns_iff {program : Program E R ε} {s : σ} {left : Except β σ} {x : ε}
    {sends : List (Event E R)} {calls : List (Event F Q)} (any : ∀ k, done k) :
    (∃ producer, Reaches out done body (Pipe.start program s) ⟨producer, .returned left x, sends, calls⟩) ↔
      Program.Runs program sends x ∧
        Program.Runs (consume body (.ok s) (items out sends)) calls left := by
  constructor
  · rintro ⟨producer, reached⟩
    have sound := Sound.of_reaches reached
    have ended : producer = .reported x := sound.waits
    subst ended
    have first : Program.Runs program (sends ++ []) x := sound.producer (.pure x)
    have second : Program.Runs (consume body (.ok s) (items out sends ++ [])) (calls ++ []) left :=
      sound.consumer (by simp [Consumer.rest])
    rw [List.append_nil] at first
    rw [List.append_nil, List.append_nil] at second
    exact ⟨first, second⟩
  · rintro ⟨producing, consuming⟩
    exact ⟨.reported x, reaches_returned any producing consuming⟩

/-- One move of the goroutine, later state first. -/
inductive Producer.Moves : Producer E R ε → Producer E R ε → Prop
  | send {e : E} {next : R e → Program E R ε} (r : R e) :
      Producer.Moves (.running (next r)) (.running (.request e next))
  | close {x : ε} : Producer.Moves (.closed x) (.running (.pure x))
  | report {x : ε} : Producer.Moves (.reported x) (.closed x)

/-- One move of the loop by itself, later state first. -/
inductive Consumer.Moves : Consumer F Q σ β ε → Consumer F Q σ β ε → Prop
  | call {f : F} {next : Q f → Program F Q (Except β σ)} (q : Q f) :
      Consumer.Moves (.working (next q)) (.working (.request f next))
  | leave {left : Except β σ} : Consumer.Moves (.between left) (.working (.pure left))
  | exhaust {left : Except β σ} : Consumer.Moves (.awaiting left) (.between left)
  | collect {left : Except β σ} {x : ε} : Consumer.Moves (.returned left x) (.awaiting left)

theorem Producer.moves_wellFounded : WellFounded (Producer.Moves (E := E) (R := R) (ε := ε)) := by
  have reported (x : ε) : Acc Producer.Moves (.reported x : Producer E R ε) := ⟨_, nofun⟩
  have closed (x : ε) : Acc Producer.Moves (.closed x : Producer E R ε) := by
    refine ⟨_, fun later move => ?_⟩
    cases move
    exact reported x
  constructor
  intro producer
  cases producer with
  | reported x => exact reported x
  | closed x => exact closed x
  | running program =>
      induction program with
      | pure x =>
          refine ⟨_, fun later move => ?_⟩
          cases move
          exact closed x
      | request e next ih =>
          refine ⟨_, fun later move => ?_⟩
          cases move with
          | send r => exact ih r

theorem Consumer.moves_wellFounded :
    WellFounded (Consumer.Moves (F := F) (Q := Q) (σ := σ) (β := β) (ε := ε)) := by
  have returned (left : Except β σ) (x : ε) :
      Acc Consumer.Moves (.returned left x : Consumer F Q σ β ε) := ⟨_, nofun⟩
  have awaiting (left : Except β σ) : Acc Consumer.Moves (.awaiting left : Consumer F Q σ β ε) := by
    refine ⟨_, fun later move => ?_⟩
    cases move
    exact returned left _
  have between (left : Except β σ) : Acc Consumer.Moves (.between left : Consumer F Q σ β ε) := by
    refine ⟨_, fun later move => ?_⟩
    cases move
    exact awaiting left
  constructor
  intro consumer
  cases consumer with
  | returned left x => exact returned left x
  | awaiting left => exact awaiting left
  | between left => exact between left
  | working q =>
      induction q with
      | pure left =>
          refine ⟨_, fun later move => ?_⟩
          cases move
          exact between left
      | request f next ih =>
          refine ⟨_, fun later move => ?_⟩
          cases move with
          | call q => exact ih q

/-- A step moves the goroutine, or leaves it where it is and moves the loop. -/
theorem Step.moves {st next : State E R F Q σ β ε} (moved : Step out done body st next) :
    Prod.Lex Producer.Moves Consumer.Moves (next.producer, next.consumer)
      (st.producer, st.consumer) := by
  cases moved with
  | receive => exact .left _ _ (.send _)
  | drop => exact .left _ _ (.send _)
  | cancel isDone => exact .left _ _ (.send _)
  | close => exact .left _ _ .close
  | report => exact .left _ _ .report
  | call q => exact .right _ (.call q)
  | leave => exact .right _ .leave
  | exhaust shut => exact .right _ .exhaust
  | collect => exact .right _ .collect

/-- No schedule goes on for ever. -/
theorem step_wellFounded :
    WellFounded fun next st : State E R F Q σ β ε => Step out done body st next := by
  have sides : WellFounded (Prod.Lex (Producer.Moves (E := E) (R := R) (ε := ε))
      (Consumer.Moves (F := F) (Q := Q) (σ := σ) (β := β) (ε := ε))) :=
    WellFounded.prod_lex Producer.moves_wellFounded Consumer.moves_wellFounded
  apply Subrelation.wf (r := InvImage _ fun st : State E R F Q σ β ε => (st.producer, st.consumer))
  · intro next st moved
    exact moved.moves
  · exact InvImage.wf _ sides

/-- No schedule gets stuck before the loop has returned and the goroutine is done, and none
needs the context for that. -/
theorem Sound.progress [∀ f, Nonempty (Q f)] {program : Program E R ε} {s : σ}
    {st : State E R F Q σ β ε} (h : Sound out body program s st) :
    (∃ next, Step out (fun _ => False) body st next) ∨
      ∃ left x, st.consumer = .returned left x ∧ st.producer = .reported x := by
  obtain ⟨producer, consumer, sends, calls⟩ := st
  have waits := h.waits
  cases consumer with
  | returned left x => exact .inr ⟨left, x, rfl, waits⟩
  | working q =>
      cases q with
      | pure left => exact .inl ⟨_, .leave⟩
      | request f next => exact .inl ⟨_, .call (Classical.arbitrary (Q f))⟩
  | between left =>
      cases producer with
      | closed x => exact .inl ⟨_, .exhaust nofun⟩
      | reported x => exact .inl ⟨_, .exhaust nofun⟩
      | running program =>
          cases program with
          | pure x => exact .inl ⟨_, .close⟩
          | request e next =>
              cases left with
              | ok s => exact .inl ⟨_, .receive⟩
              | error stop => exact .inl ⟨_, .drop⟩
  | awaiting left =>
      cases producer with
      | closed x => exact .inl ⟨_, .report⟩
      | reported x => exact .inl ⟨_, .collect⟩
      | running program => exact absurd rfl (waits program)

end Pipe
end Interaction
