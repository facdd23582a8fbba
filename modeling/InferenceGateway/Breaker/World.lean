import InferenceGateway.Breaker.Prober
import InferenceGateway.Breaker.Registry
import InferenceGateway.Interaction.Pool
import InferenceGateway.Retry.Engine

/-! The shared breakers under any number of requests and prober rounds. A step of the
pool is one operation of one of them; breaker methods act on the registry, everything
else is answered by the step's input. -/
namespace Gateway.Breaker
open Gateway.Providers Gateway.Retry Interaction

/-- `entered` counts how often each breaker has become half-open; no operation reads it. -/
structure World where
  registry : Registry
  entered : String → Nat := fun _ => 0

/-- The clock readings a step takes and its answers to everything but breaker methods. -/
structure Input where
  clock : Readings
  oracle : (op : Op) → op.Reply

def World.update (w : World) (name model : String) (method : Breaker → Breaker) : World :=
  { w with registry := w.registry.update name model method }

def World.allow (w : World) (name model : String) (now : Int) : Bool × World :=
  let b := w.registry.get name model
  let k := key name model
  let opens := b.state = .opened ∧ b.cooldownElapsed now
  ((b.allow now).1,
    { registry := w.registry.update name model fun b => (b.allow now).2
      entered := if opens then Function.update w.entered k (w.entered k + 1) else w.entered })

def World.serve (w : World) (input : Input) : (op : Op) → op.Reply × World
  | .ready name model =>
      ((w.registry.get name model).ready input.clock.recordedAt, w.update name model id)
  | .allow name model => w.allow name model input.clock.recordedAt
  | .state name model => ((w.registry.get name model).state, w.update name model id)
  | .recordSuccess name model =>
      ((), w.update name model fun b => b.recordSuccess input.clock.recordedAt)
  | .recordFailure name model => ((), w.update name model fun b => b.recordFailure input.clock)
  | .snapshot => (w.registry.snapshot (input.oracle .snapshot), w)
  | op => (input.oracle op, w)

inductive Job where
  | execute (tiers : List Tier) (req : CanonicalRequest)
  | executeStream (tiers : List Tier) (req : CanonicalRequest)
  | probeOnce

def Job.program (e : Engine) : Job → EngineM Unit
  | .execute tiers req => do
      let _ ← e.execute tiers req
      pure ()
  | .executeStream tiers req => do
      let _ ← e.executeStream tiers req
      pure ()
  | .probeOnce => Breaker.probeOnce e.providers

/-- An Allow that returned true and has not been answered by a record yet. -/
structure Admission where
  key : String
  period : Nat
  deriving DecidableEq

/-- Replies after which a visit returns without recording an outcome: a Terminal failure,
a stream failing after content, a failing callback. -/
def unrecorded (e : Engine) : Event Op Op.Reply → Bool
  | ⟨.complete name _, reply⟩ =>
      match CompleteReply.result reply with
      | .error err => decide (e.classify name err = .terminal)
      | .ok _ => false
  | ⟨.stream name _, reply⟩ =>
      match StreamReply.err reply with
      | some err => (StreamReply.deltas reply).any (fun d => d.content != "") ||
          decide (e.classify name err = .terminal)
      | none => false
  | ⟨.onDelta _ _ _, some _⟩ => true
  | _ => false

/-- The custody of admissions: Allow hands one out, a record returns it, and an outcome
that will never be recorded loses it. Nobody asks for a second one while holding one. -/
def custody (e : Engine) : Protocol Op Op.Reply World (Option Admission) where
  advance w held ev :=
    match ev with
    | ⟨.allow name model, true⟩ => some ⟨Breaker.key name model, w.entered (Breaker.key name model)⟩
    | ⟨.recordSuccess _ _, _⟩ | ⟨.recordFailure _ _, _⟩ => none
    | ev => if unrecorded e ev then none else held
  legal held ev :=
    match ev.1 with
    | .allow _ _ => held = none
    | .recordSuccess name model | .recordFailure name model =>
        ∀ a, held = some a → a.key = Breaker.key name model
    | _ => True

/-- The gateway's breakers, engine and prober as one system of processes. -/
def gateway (e : Engine) : System Op Op.Reply (Option Admission) Unit World Job Input where
  program := Job.program e
  idle := none
  serve := World.serve
  protocol := custody e

end Gateway.Breaker
