import InferenceGateway.Breaker.Breaker
import InferenceGateway.Interaction.Program

/-! The operations the retry engine and the prober ask of their surroundings, and
the delay computation between two attempts at one provider. -/
namespace Gateway.Retry
open Gateway.Providers Interaction

/-- Everything one Stream call did: the deltas it sent, in order, then its error. -/
structure StreamReply where
  deltas : List Delta
  err : Option CallError
  duration : Duration := 0
  deriving DecidableEq, Repr

structure CompleteReply where
  result : Except CallError CanonicalResponse
  duration : Duration := 0

/-- A breaker method is called on what Registry.Get returns for the pair; `sleep` is the
waiting part of sleepWithinDeadline, `ctxErr` a reading of ctx.Err(). -/
inductive Op where
  | ready (providerName model : String)
  | allow (providerName model : String)
  | state (providerName model : String)
  | recordSuccess (providerName model : String)
  | recordFailure (providerName model : String)
  | snapshot
  | healthCheck (providerName : String)
  | complete (providerName : String) (req : CanonicalRequest)
  | stream (providerName : String) (req : CanonicalRequest)
  | onDelta (providerName model : String) (d : Delta)
  | intn (n : Int64)
  | int63n (n : Int64)
  | sleep (d : Duration)
  | ctxErr

/-- The random source is only ever asked for a number below a positive bound; the
successor keeps the reply type inhabited for the bounds that are never asked. -/
abbrev Below (n : Int64) := Fin (n.toInt.toNat - 1 + 1)

@[reducible] def Op.Reply : Op → Type
  | .ready _ _ | .allow _ _ | .sleep _ => Bool
  | .state _ _ => Breaker.State
  | .recordSuccess _ _ | .recordFailure _ _ => Unit
  | .snapshot => List (String × String)
  | .healthCheck _ => Option CallError
  | .complete _ _ => CompleteReply
  | .stream _ _ => StreamReply
  | .onDelta _ _ _ => Option CallError
  | .intn n | .int63n n => Below n
  | .ctxErr => Option CtxError

abbrev EngineM := Program Op Op.Reply
abbrev Trace := List (Event Op Op.Reply)

abbrev perform (o : Op) : EngineM o.Reply := Program.perform o

/-- Surroundings with every breaker ready, a live context, an accepting callback and a
random source that answers zero; only the provider calls are given. -/
def calm (complete : String → CompleteReply) (stream : String → StreamReply) (_ : Trace) :
    (op : Op) → op.Reply
  | .ready _ _ | .allow _ _ | .sleep _ => true
  | .state _ _ => .closed
  | .recordSuccess _ _ | .recordFailure _ _ => ()
  | .snapshot => []
  | .healthCheck _ => none
  | .complete name _ => complete name
  | .stream name _ => stream name
  | .onDelta _ _ _ => none
  | .intn _ | .int63n _ => 0
  | .ctxErr => none

structure Config where
  maxAttemptsPerProvider : Int64
  baseBackoff : Duration
  maxBackoff : Duration
  deriving DecidableEq, Repr

/-- The exclusive bound FullJitterBackoff passes to rand.Int63n. -/
def jitterWindow (attempt : Int) (base maxBackoff : Duration) : Duration :=
  let attempt := min 62 (max 0 attempt)
  let backoff := base * (1 <<< Int64.ofInt attempt)
  if backoff ≤ 0 ∨ maxBackoff < backoff then maxBackoff else backoff

def fullJitterBackoff (attempt : Int) (base maxBackoff : Duration) : EngineM Duration :=
  let backoff := jitterWindow attempt base maxBackoff
  if backoff ≤ 0 then pure 0
  else do
    let r : Below backoff ← perform (.int63n backoff)
    pure (Int64.ofNat r.val)

def backoffFor (attempt : Int) (base maxBackoff : Duration) (err : Option CallError) :
    EngineM Duration :=
  match err.bind CallError.asAPIError with
  | some apiErr =>
      if 0 < apiErr.retryAfter then pure apiErr.retryAfter
      else fullJitterBackoff attempt base maxBackoff
  | none => fullJitterBackoff attempt base maxBackoff

def sleepWithinDeadline (d : Duration) : EngineM Bool :=
  if d ≤ 0 then pure true else perform (.sleep d)

/-- The wait before every attempt but the first. -/
def waitBefore (cfg : Config) (attempt : Nat) (lastErr : Option CallError) : EngineM Bool :=
  if 0 < attempt then do
    let wait ← backoffFor (attempt - 1 : Int) cfg.baseBackoff cfg.maxBackoff lastErr
    sleepWithinDeadline wait
  else pure true

end Gateway.Retry
