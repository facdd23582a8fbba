import InferenceGateway.Retry.Backoff

/-! The two nested loops of package retry, for complete and for streamed answers. -/
namespace Gateway.Retry
open Gateway.Providers Interaction

structure Candidate where
  providerName : String
  model : String
  weight : Int64
  deriving DecidableEq, Repr

structure Tier where
  candidates : List Candidate
  deriving DecidableEq, Repr

structure Attempt where
  provider : String
  status : Int
  deriving DecidableEq, Repr

def Attempt.string (a : Attempt) : String := a.provider ++ ":" ++ toString a.status

/-- The causes an Error or StreamError can wrap. -/
inductive EngineError where
  | noHealthyProvider
  | ctx (e : CtxError)
  | call (e : CallError)
  deriving DecidableEq, Repr

def EngineError.error : EngineError → String
  | .noHealthyProvider => "retry: no healthy provider available"
  | .ctx e => e.error
  | .call e => e.error

structure Result where
  response : Option CanonicalResponse
  provider : String
  model : String
  attempts : List Attempt
  providerDuration : Duration

structure Error where
  err : EngineError
  attempts : List Attempt

structure StreamResult where
  provider : String
  model : String
  attempts : List Attempt
  usage : Option Usage
  providerDuration : Duration

structure StreamError where
  err : EngineError
  attempts : List Attempt
  flushed : Bool := false

structure Engine where
  providers : String → Option Provider
  cfg : Config

/-- An engine whose providers are all wired and classify by the shared status table. -/
def Engine.uniform (cfg : Config) : Engine where
  providers _ := some ⟨fun _ status => classifyByStatus status, fun _ => (0, 0), true⟩
  cfg := cfg

namespace Engine

/-- Classify of the named provider. Only names pickFromTier found wired are asked. -/
def classify (e : Engine) (name : String) (err : CallError) : FailureClass :=
  match e.providers name with
  | some p => p.classify err err.status
  | none => .terminal

def pricing (e : Engine) (name model : String) : ℚ × ℚ :=
  match e.providers name with
  | some p => p.pricing model
  | none => (0, 0)

/-- The first loop of pickFromTier, collecting eligible candidates and their weight. -/
def scanTier (e : Engine) (tried : List String) :
    List Candidate → List Candidate → Int64 → EngineM (List Candidate × Int64)
  | [], eligible, totalWeight => pure (eligible, totalWeight)
  | c :: rest, eligible, totalWeight =>
      if c.providerName ∈ tried then e.scanTier tried rest eligible totalWeight
      else if (e.providers c.providerName).isNone then e.scanTier tried rest eligible totalWeight
      else do
        let ready : Bool ← perform (.ready c.providerName c.model)
        if ready then e.scanTier tried rest (eligible ++ [c]) (totalWeight + c.weight)
        else e.scanTier tried rest eligible totalWeight

/-- The second loop of pickFromTier; `last` is its defensive final return. -/
def scanWeights (last : Candidate) : List Candidate → Int64 → Candidate
  | [], _ => last
  | c :: rest, pick => if pick < c.weight then c else scanWeights last rest (pick - c.weight)

def pickFromTier (e : Engine) (tier : Tier) (tried : List String) : EngineM (Option Candidate) := do
  let scanned ← e.scanTier tried tier.candidates [] 0
  match scanned.1.getLast? with
  | none => pure none
  | some last =>
      if scanned.2 ≤ 0 then pure none
      else do
        let pick : Below scanned.2 ← perform (.intn scanned.2)
        pure (some (scanWeights last scanned.1 (Int64.ofNat pick.val)))

/-- The error tryCandidate returns besides a provider's own. -/
inductive TryError where
  | breakerRejected
  | call (e : CallError)

structure Tried where
  resp : Option CanonicalResponse := none
  err : Option TryError := none
  attempts : List Attempt
  duration : Duration

/-- The attempt loop of tryCandidate, counted down; `attempt` is its index. -/
def attemptLoop (e : Engine) (c : Candidate) (providerReq : CanonicalRequest) :
    Nat → Nat → Option CallError → List Attempt → Duration → EngineM Tried
  | 0, _, lastErr, attempts, duration =>
      pure { err := lastErr.map .call, attempts, duration }
  | remaining + 1, attempt, lastErr, attempts, duration => do
      let go ← waitBefore e.cfg attempt lastErr
      if !go then pure { err := lastErr.map .call, attempts, duration }
      else do
        let reply : CompleteReply ← perform (.complete c.providerName providerReq)
        let duration := duration + reply.duration
        match reply.result with
        | .ok resp => do
            perform (.recordSuccess c.providerName c.model)
            pure { resp := some resp, attempts := attempts ++ [⟨c.providerName, 200⟩], duration }
        | .error err => do
            let attempts := attempts ++ [⟨c.providerName, err.status⟩]
            match e.classify c.providerName err with
            | .terminal => pure { err := some (.call err), attempts, duration }
            | .fallback => do
                perform (.recordFailure c.providerName c.model)
                pure { err := some (.call err), attempts, duration }
            | .retryable => do
                perform (.recordFailure c.providerName c.model)
                e.attemptLoop c providerReq remaining (attempt + 1) (some err) attempts duration

def tryCandidate (e : Engine) (c : Candidate) (req : CanonicalRequest)
    (attempts : List Attempt) (duration : Duration) : EngineM Tried := do
  let allowed : Bool ← perform (.allow c.providerName c.model)
  if !allowed then pure { err := some .breakerRejected, attempts, duration }
  else
    let providerReq : CanonicalRequest := { req with model := c.model }
    e.attemptLoop c providerReq e.cfg.maxAttemptsPerProvider.toInt.toNat 0 none attempts duration

/-- The variables Execute carries from tier to tier. -/
structure Progress where
  attempts : List Attempt := []
  duration : Duration := 0
  lastErr : EngineError := .noHealthyProvider

/-- How the unbounded loop over one tier ends. Fuel exhaustion is its own outcome
and is never reinterpreted as one of the others. -/
inductive TierEnd (ρ : Type) where
  | advance (p : Progress)
  | returned (r : ρ)
  | outOfFuel

/-- The loop over one tier. The returned `Tried` status is what Classify is asked
with a second time; the status is a function of the error. -/
def tryTier (e : Engine) (tier : Tier) (req : CanonicalRequest) :
    Nat → List String → Progress → EngineM (TierEnd (Except Error Result))
  | 0, _, _ => pure .outOfFuel
  | fuel + 1, tried, p => do
      let picked ← e.pickFromTier tier tried
      match picked with
      | none => pure (.advance p)
      | some c => do
          let tried := c.providerName :: tried
          let t ← e.tryCandidate c req p.attempts p.duration
          match t.err with
          | none => pure (.returned (.ok ⟨t.resp, c.providerName, c.model, t.attempts, t.duration⟩))
          | some .breakerRejected =>
              e.tryTier tier req fuel tried { p with attempts := t.attempts, duration := t.duration }
          | some (.call err) =>
              match e.classify c.providerName err with
              | .terminal => pure (.returned (.error ⟨.call err, t.attempts⟩))
              | .retryable | .fallback => do
                  let ctxErr : Option CtxError ← perform .ctxErr
                  match ctxErr with
                  | some ce => pure (.returned (.error ⟨.ctx ce, t.attempts⟩))
                  | none => e.tryTier tier req fuel tried ⟨t.attempts, t.duration, .call err⟩

def executeFrom (e : Engine) (req : CanonicalRequest) :
    List Tier → Progress → EngineM (Option (Except Error Result))
  | [], p => pure (some (.error ⟨p.lastErr, p.attempts⟩))
  | tier :: rest, p => do
      let ended ← e.tryTier tier req (tier.candidates.length + 1) [] p
      match ended with
      | .advance p => e.executeFrom req rest p
      | .returned r => pure (some r)
      | .outOfFuel => pure none

/-- Execute; `none` stands for a loop that ran out of fuel. -/
def execute (e : Engine) (tiers : List Tier) (req : CanonicalRequest) :
    EngineM (Option (Except Error Result)) := e.executeFrom req tiers {}

/-- What relayStream returns once the callback has seen the deltas. -/
structure Relayed where
  usage : Option Usage
  flushed : Bool
  err : Option CallError

/-- The range loop of relayStream; `err` is what Stream returns after its last delta
and is dropped when the callback fails first. -/
def relayDeltas (name model : String) (err : Option CallError) :
    List Delta → Option Usage → Bool → EngineM Relayed
  | [], usage, flushed => pure ⟨usage, flushed, err⟩
  | d :: rest, usage, flushed => do
      let usage := d.usage.or usage
      let refused : Option CallError ← perform (.onDelta name model d)
      match refused with
      | some failure => pure ⟨usage, flushed, some failure⟩
      | none => relayDeltas name model err rest usage (flushed || d.content != "")

structure TriedStream where
  usage : Option Usage := none
  flushed : Bool
  err : Option TryError := none
  attempts : List Attempt
  duration : Duration

/-- The attempt loop of tryCandidateStream. -/
def streamLoop (e : Engine) (c : Candidate) (providerReq : CanonicalRequest) :
    Nat → Nat → Option CallError → Bool → List Attempt → Duration → EngineM TriedStream
  | 0, _, lastErr, flushed, attempts, duration =>
      pure { flushed, err := lastErr.map .call, attempts, duration }
  | remaining + 1, attempt, lastErr, flushed, attempts, duration => do
      let go ← waitBefore e.cfg attempt lastErr
      if !go then pure { flushed, err := lastErr.map .call, attempts, duration }
      else do
        let reply : StreamReply ← perform (.stream c.providerName providerReq)
        let relayed ← relayDeltas c.providerName c.model reply.err reply.deltas none false
        let flushed := flushed || relayed.flushed
        let duration := duration + reply.duration
        match relayed.err with
        | none => do
            perform (.recordSuccess c.providerName c.model)
            pure { usage := relayed.usage, flushed
                   attempts := attempts ++ [⟨c.providerName, 200⟩], duration }
        | some err => do
            let attempts := attempts ++ [⟨c.providerName, err.status⟩]
            if flushed then pure { flushed := true, err := some (.call err), attempts, duration }
            else
              match e.classify c.providerName err with
              | .terminal => pure { flushed := false, err := some (.call err), attempts, duration }
              | .fallback => do
                  perform (.recordFailure c.providerName c.model)
                  pure { flushed := false, err := some (.call err), attempts, duration }
              | .retryable => do
                  perform (.recordFailure c.providerName c.model)
                  e.streamLoop c providerReq remaining (attempt + 1) (some err) flushed attempts
                    duration

def tryCandidateStream (e : Engine) (c : Candidate) (req : CanonicalRequest)
    (attempts : List Attempt) (duration : Duration) : EngineM TriedStream := do
  let allowed : Bool ← perform (.allow c.providerName c.model)
  if !allowed then pure { flushed := false, err := some .breakerRejected, attempts, duration }
  else
    let providerReq : CanonicalRequest := { req with model := c.model }
    e.streamLoop c providerReq e.cfg.maxAttemptsPerProvider.toInt.toNat 0 none false attempts
      duration

def tryTierStream (e : Engine) (tier : Tier) (req : CanonicalRequest) :
    Nat → List String → Progress → EngineM (TierEnd (Except StreamError StreamResult))
  | 0, _, _ => pure .outOfFuel
  | fuel + 1, tried, p => do
      let picked ← e.pickFromTier tier tried
      match picked with
      | none => pure (.advance p)
      | some c => do
          let tried := c.providerName :: tried
          let t ← e.tryCandidateStream c req p.attempts p.duration
          match t.err with
          | none => pure (.returned (.ok ⟨c.providerName, c.model, t.attempts, t.usage, t.duration⟩))
          | some .breakerRejected =>
              e.tryTierStream tier req fuel tried
                { p with attempts := t.attempts, duration := t.duration }
          | some (.call err) =>
              if t.flushed then pure (.returned (.error ⟨.call err, t.attempts, true⟩))
              else
                match e.classify c.providerName err with
                | .terminal => pure (.returned (.error ⟨.call err, t.attempts, false⟩))
                | .retryable | .fallback => do
                    let ctxErr : Option CtxError ← perform .ctxErr
                    match ctxErr with
                    | some ce => pure (.returned (.error ⟨.ctx ce, t.attempts, false⟩))
                    | none => e.tryTierStream tier req fuel tried ⟨t.attempts, t.duration, .call err⟩

def executeStreamFrom (e : Engine) (req : CanonicalRequest) :
    List Tier → Progress → EngineM (Option (Except StreamError StreamResult))
  | [], p => pure (some (.error ⟨p.lastErr, p.attempts, false⟩))
  | tier :: rest, p => do
      let ended ← e.tryTierStream tier req (tier.candidates.length + 1) [] p
      match ended with
      | .advance p => e.executeStreamFrom req rest p
      | .returned r => pure (some r)
      | .outOfFuel => pure none

/-- ExecuteStream, with the callback as an operation of its surroundings. -/
def executeStream (e : Engine) (tiers : List Tier) (req : CanonicalRequest) :
    EngineM (Option (Except StreamError StreamResult)) := e.executeStreamFrom req tiers {}

end Engine
end Gateway.Retry
