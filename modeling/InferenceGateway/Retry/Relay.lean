import InferenceGateway.Interaction.Pipe
import InferenceGateway.Providers.Upstream
import InferenceGateway.Retry.Visits

/-! relayStream as it runs: Stream in a goroutine of its own that sends its deltas over an
unbuffered channel, and the range loop that hands them to the callback. The engine's model
takes a Stream call for one operation and loops over what it sent afterwards; here that
abstraction is justified. -/
namespace Gateway.Retry
open Gateway.Providers Interaction

/-- The channel out of Stream. -/
def providerChan : Outlet SendOp SendOp.Reply Delta CtxError where
  item
    | .send d => d
  sent
    | .send _ => none
  cancelled
    | .send _, err => some err
  received := received
  received_sent e := by cases e; rfl
  received_cancelled e k := by cases e; rfl
  sent_or_cancelled e r := by
    cases e
    cases r with
    | none => exact .inl rfl
    | some err => exact .inr ⟨err, rfl⟩

/-- The local variables of relayStream. -/
structure Forwarded where
  usage : Option Usage := none
  flushed : Bool := false

/-- What the callback refused a delta with, and the variables at that point. -/
structure Refusal where
  forwarded : Forwarded
  failure : CallError

/-- The body of the range loop. -/
def forward (name model : String) (s : Forwarded) (d : Delta) : EngineM (Except Refusal Forwarded) := do
  let usage := d.usage.or s.usage
  let refused : Option CallError ← perform (.onDelta name model d)
  match refused with
  | some failure => pure (.error ⟨{ s with usage }, failure⟩)
  | none => pure (.ok ⟨usage, s.flushed || d.content != ""⟩)

/-- What relayStream returns once it has the error of Stream from errCh. -/
def relayed (err : Option CallError) : Except Refusal Forwarded → Engine.Relayed
  | .ok s => ⟨s.usage, s.flushed, err⟩
  | .error stop => ⟨stop.forwarded.usage, stop.forwarded.flushed, some stop.failure⟩

abbrev RelayState := Pipe.State SendOp SendOp.Reply Op Op.Reply Forwarded Refusal (Option CallError)

/-- relayStream as it is entered, for a Stream call that runs `stream`. -/
def relayStream (stream : StreamM (Option CallError)) : RelayState := Pipe.start stream {}

/-- A step, with the errors the context may have by then. -/
abbrev RelayStep (name model : String) (done : CtxError → Prop) : RelayState → RelayState → Prop :=
  Pipe.Step providerChan done (forward name model)

abbrev Relays (name model : String) (done : CtxError → Prop) (stream : StreamM (Option CallError)) :
    RelayState → Prop := Pipe.Reaches providerChan done (forward name model) (relayStream stream)

/-- relayStream has returned `r`. -/
def RelayReturned (st : RelayState) (r : Engine.Relayed) : Prop :=
  ∃ left err, st.consumer = .returned left err ∧ r = relayed err left

/-- The engine's loop over the deltas of a finished Stream call is the range loop. -/
theorem relayDeltas_eq (name model : String) (err : Option CallError) (deltas : List Delta)
    (s : Forwarded) :
    Engine.relayDeltas name model err deltas s.usage s.flushed =
      Pipe.consume (forward name model) (.ok s) deltas >>= fun left => pure (relayed err left) := by
  induction deltas generalizing s with
  | nil => rfl
  | cons d deltas ih =>
      rw [Engine.relayDeltas, Pipe.consume_cons]
      change Program.request _ _ = Program.request _ _
      congr 1
      funext refused
      cases refused with
      | some failure =>
          have stopped : Pipe.consume (forward name model)
              (.error ⟨⟨d.usage.or s.usage, s.flushed⟩, failure⟩) deltas = pure (.error _) :=
            Pipe.consume_error _ deltas
          exact (congrArg (fun p => p >>= fun left => pure (relayed err left)) stopped).symm
      | none => exact ih ⟨d.usage.or s.usage, s.flushed || d.content != ""⟩

/-- Whatever the schedule of the two sides and wherever the context is done, relayStream
returns what the engine's model computes from one atomic Stream call, after the same calls of
the callback; and everything the model can do, some schedule does. -/
theorem relayStream_refines (name model : String) (stream : StreamM (Option CallError))
    (sends : List (Event SendOp SendOp.Reply)) (calls : Trace) (r : Engine.Relayed) :
    (∃ st, Relays name model (fun _ => True) stream st ∧ RelayReturned st r ∧ st.sends = sends ∧
        st.calls = calls) ↔
      ∃ err, Program.Runs stream sends err ∧
        Program.Runs (Engine.relayDeltas name model err (sends.filterMap received) none false)
          calls r := by
  constructor
  · rintro ⟨⟨producer, consumer, sends', calls'⟩, reached, ⟨left, err, rfl, rfl⟩, rfl, rfl⟩
    obtain ⟨streaming, looping⟩ := (Pipe.returns_iff fun _ => trivial).mp ⟨producer, reached⟩
    refine ⟨err, streaming, ?_⟩
    rw [relayDeltas_eq name model err _ {}]
    exact Program.runs_bind.mpr ⟨_, left, [], (List.append_nil _).symm, looping, .pure _⟩
  · rintro ⟨err, streaming, looping⟩
    rw [relayDeltas_eq name model err _ {}] at looping
    obtain ⟨tr, left, rest, rfl, inside, last⟩ := Program.runs_bind.mp looping
    obtain ⟨rfl, rfl⟩ := Program.runs_pure.mp last
    have reached : ∃ producer, Relays name model (fun _ => True) stream
        ⟨producer, .returned left err, sends, tr⟩ :=
      (Pipe.returns_iff fun _ => trivial).mpr ⟨streaming, inside⟩
    obtain ⟨producer, reached⟩ := reached
    exact ⟨_, reached, ⟨left, err, rfl, rfl⟩, rfl, (List.append_nil tr).symm⟩

/-- relayStream always returns and never leaves its goroutine behind. No schedule of the two
sides is infinite; and in every state they can reach, one of them can go on even if the
context is never done, or relayStream has returned and the goroutine is past its last
statement. -/
theorem relayStream_returns (name model : String) (done : CtxError → Prop)
    (stream : StreamM (Option CallError)) :
    (¬ ∃ run : Nat → RelayState, ∀ n, RelayStep name model done (run n) (run (n + 1))) ∧
      ∀ st, Relays name model done stream st →
        (∃ next, RelayStep name model (fun _ => False) st next) ∨
          ∃ r, RelayReturned st r ∧ ∃ err, st.producer = .reported err := by
  constructor
  · rintro ⟨run, steps⟩
    exact (wellFounded_iff_isEmpty_descending_chain.mp Pipe.step_wellFounded).false ⟨run, steps⟩
  · intro st reached
    rcases (Pipe.Sound.of_reaches reached).progress with moves | ⟨left, err, returned, ended⟩
    · exact .inl moves
    · exact .inr ⟨relayed err left, ⟨left, err, returned, rfl⟩, err, ended⟩

end Gateway.Retry
