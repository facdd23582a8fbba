import InferenceGateway.Server.Ops

/-! The chat completions handler of package server, its cache lookups, its streaming
branch and what either records. Of the metrics only the count of failures is modelled, of
the logs nothing. -/
namespace Gateway.Server
open Gateway.Providers Gateway.Retry Interaction
open Gateway.Semantic (Query)
open Gateway.Embedding (Vector)

/-- exact.Eligible. -/
def eligible (req : CanonicalRequest) (cacheNonzeroTemperature : Bool) : Bool :=
  cacheNonzeroTemperature || req.temperature == some 0

/-- exact.Key. -/
def exactKey (lib : Library) (tenantID canonicalJSON : String) : String :=
  "cache:exact:" ++ tenantID ++ ":" ++ lib.sha256Hex canonicalJSON

structure CacheLookup where
  exactCacheKey : String := ""
  semanticQuery : Query := {}
  semanticEligible : Bool := false
  deriving DecidableEq

inductive CacheTier where
  | exact
  | semantic
  deriving DecidableEq

def CacheTier.name : CacheTier → String
  | .exact => "exact"
  | .semantic => "semantic"

abbrev Lookup := Option (CanonicalResponse × CacheTier) × CacheLookup

def concatUserTurns (messages : List Message) : String :=
  messages.foldl (fun b m =>
    if m.role ≠ "user" then b
    else if b ≠ "" then b ++ "\n" ++ m.content else b ++ m.content) ""

/-- The second half of checkCaches, on a Tier-1 miss. -/
def checkSemantic (deps : ChatDeps) (req : CanonicalRequest) (identity : Auth.Identity)
    (exactCacheKey : String) : ServerM Lookup :=
  let semanticEligible :=
    deps.embedder && deps.semanticCache && eligible req deps.cacheNonzeroTemperature
  if semanticEligible then do
    let vector : Except String Vector ← perform (.embed (concatUserTurns req.messages))
    match vector with
    | .error _ => pure (none, { exactCacheKey })
    | .ok vector => do
        let semanticQuery : Query :=
          { tenantID := identity.orgID, model := req.model
            toolsCanonical := (deps.lib.canonicalizeJSON req.tools).getD ""
            responseFormatCanonical := (deps.lib.canonicalizeJSON req.responseFormat).getD ""
            vector }
        let lookup : CacheLookup := { exactCacheKey, semanticQuery, semanticEligible := true }
        let hit : Option CanonicalResponse ← perform (.semanticGet semanticQuery)
        match hit with
        | some cached => pure (some (cached, .semantic), lookup)
        | none => pure (none, lookup)
  else pure (none, { exactCacheKey })

def checkCaches (deps : ChatDeps) (req : CanonicalRequest) (identity : Auth.Identity) :
    ServerM Lookup :=
  if deps.cache && eligible req deps.cacheNonzeroTemperature then
    match deps.lib.canonicalize req with
    | none => checkSemantic deps req identity ""
    | some canon => do
        let key := exactKey deps.lib identity.orgID canon
        let found : Except String (Option CanonicalResponse) ← perform (.cacheGet key)
        match found with
        | .ok (some cached) => pure (some (cached, .exact), { exactCacheKey := key })
        | .ok none | .error _ => checkSemantic deps req identity key
  else checkSemantic deps req identity ""

def storeExact (deps : ChatDeps) (lookup : CacheLookup) (resp : CanonicalResponse)
    (ttlOverride : Option Duration) : ServerM (Option String) :=
  if lookup.exactCacheKey ≠ "" ∧ deps.cache then
    perform (.cacheSet lookup.exactCacheKey resp ttlOverride)
  else pure none

def storeSemantic (lookup : CacheLookup) (resp : CanonicalResponse)
    (ttlOverride : Option Duration) : ServerM Unit :=
  if lookup.semanticEligible then perform (.semanticSet lookup.semanticQuery resp ttlOverride)
  else pure ()

def storeInCaches (deps : ChatDeps) (lookup : CacheLookup) (resp : CanonicalResponse)
    (ttlOverride : Option Duration) : ServerM Unit :=
  if ttlOverride.any (· ≤ 0) then pure ()
  else do
    let _ ← storeExact deps lookup resp ttlOverride
    storeSemantic lookup resp ttlOverride

/-- The error text of a refused hint, or the override to apply. -/
def resolveCacheTTLOverride (lib : Library) (raw : String) (maxClientTTL : Duration) :
    Except String (Option Duration) :=
  if raw = "" ∨ maxClientTTL ≤ 0 then .ok none
  else
    match lib.parseDuration raw with
    | .error err => .error ("invalid cache_ttl " ++ Config.quote lib.isPrint raw ++ ": " ++ err)
    | .ok d => .ok (some (if maxClientTTL < d then maxClientTTL else d))

def formatCacheTTL (lib : Library) (d : Duration) : String :=
  if d ≤ 0 then "0" else lib.durationString d

def formatAttempts (attempts : List Attempt) : String :=
  ", ".intercalate (attempts.map Attempt.string)

/-- The header both success paths send when a cache_ttl hint was applied. -/
def setCacheTTLHeader (lib : Library) (ttlOverride : Option Duration) : ServerM Unit :=
  match ttlOverride with
  | some d => setHeader "X-Gateway-Cache-TTL" (formatCacheTTL lib d)
  | none => pure ()

def writeCachedResponse (tier : CacheTier) (resp : CanonicalResponse) : ServerM Unit := do
  setHeader "X-Gateway-Cache" tier.name
  setHeader "Content-Type" "application/json"
  writeHeader 200
  let _ ← write (encodeLine (responseJSON resp))

/-- Seconds, rounded up, of the wait a rejection asks for. -/
def retryAfterSeconds (d : RateLimit.Decision) : Int := ⌈(d.retryAfter.toInt : ℚ) / 1000000000⌉

def writeRateLimitRejection (r : Request) (d : RateLimit.Decision) : ServerM Unit := do
  setHeader "Retry-After" (toString (retryAfterSeconds d))
  setHeader "X-RateLimit-Scope" d.limitingScope
  setHeader "X-RateLimit-Remaining" "0"
  writeJSONError r 429 ("rate limit exceeded at " ++ d.limitingScope ++ " scope")

/-- time.Since(start). -/
def since (start : Int64) : ServerM Duration := do
  let t : Int64 ← perform .now
  pure (t - start)

def record (deps : ChatDeps) (entry : Ledger.Entry) : ServerM Unit :=
  if deps.ledger then perform (.record entry) else pure ()

def recordCacheHitObservability (deps : ChatDeps) (r : Request) (identity : Auth.Identity)
    (tier : CacheTier) (cached : CanonicalResponse) (elapsed : Duration) : ServerM Unit :=
  record deps
    { requestID := r.requestID, orgID := identity.orgID, teamID := identity.teamID
      virtualKeyID := identity.keyID, model := cached.model
      tokensSaved := cached.usage.promptTokens + cached.usage.completionTokens
      cacheTier := tier.name, statusCode := 200, latencyMS := elapsed / 1000000 }

/-- Dollars, at the engine's prices per million tokens. -/
def costUSD (deps : ChatDeps) (provider model : String) (prompt completion : Int64) : ℚ :=
  let prices := deps.engine.pricing provider model
  (prompt.toInt : ℚ) / 1000000 * prices.1 + (completion.toInt : ℚ) / 1000000 * prices.2

def recordSuccessObservability (deps : ChatDeps) (r : Request) (identity : Auth.Identity)
    (provider model : String) (usage : Usage) (attempts : Nat) (elapsed : Duration) : ServerM Unit :=
  record deps
    { requestID := r.requestID, orgID := identity.orgID, teamID := identity.teamID
      virtualKeyID := identity.keyID, provider, model, promptTokens := usage.promptTokens
      completionTokens := usage.completionTokens
      costUSD := costUSD deps provider model usage.promptTokens usage.completionTokens
      cacheTier := "none", attempts := Int64.ofNat attempts, statusCode := 200
      latencyMS := elapsed / 1000000 }

def recordPartialStreamObservability (deps : ChatDeps) (r : Request) (identity : Auth.Identity)
    (provider model : String) (promptTokens completionTokens : Int64) (elapsed : Duration) :
    ServerM Unit :=
  record deps
    { requestID := r.requestID, orgID := identity.orgID, teamID := identity.teamID
      virtualKeyID := identity.keyID, provider, model, promptTokens, completionTokens
      costUSD := costUSD deps provider model promptTokens completionTokens
      cacheTier := "none", attempts := 1, statusCode := 200, latencyMS := elapsed / 1000000 }

/-- The status writeEngineError maps an engine failure to. -/
def engineStatus : EngineError → Int
  | .noHealthyProvider => 503
  | .ctx _ => 502
  | .call err =>
      match err.asAPIError with
      | some apiErr => apiErr.statusCode
      | none => 502

def setAttemptsHeader (attempts : List Attempt) : ServerM Unit :=
  if attempts = [] then pure () else setHeader "X-Gateway-Attempts" (formatAttempts attempts)

def lastProvider (attempts : List Attempt) : String :=
  (attempts.getLast?.map Attempt.provider).getD ""

def writeEngineError (r : Request) (err : EngineError) (attempts : List Attempt) :
    ServerM (Int × String) := do
  setAttemptsHeader attempts
  writeJSONError r (engineStatus err) err.error
  pure (engineStatus err, lastProvider attempts)

def recordFailureObservability (status : Int) (lastProvider : String) : ServerM Unit :=
  perform (.countFailure status lastProvider)

/-- The end of a request that got no response. -/
def reportEngineError (r : Request) (err : EngineError) (attempts : List Attempt) :
    ServerM Unit := do
  let returned ← writeEngineError r err attempts
  recordFailureObservability returned.1 returned.2

/-- writeCachedStream. -/
def writeCachedStream (r : Request) (tier : CacheTier) (resp : CanonicalResponse) : ServerM Unit :=
  if !r.canFlush then writeCachedResponse tier resp
  else do
    setHeader "Content-Type" "text/event-stream"
    setHeader "Cache-Control" "no-cache"
    setHeader "X-Accel-Buffering" "no"
    setHeader "X-Gateway-Cache" tier.name
    writeHeader 200
    let suffix : String ← perform .newRequestID
    let id := "chatcmpl-" ++ suffix
    let t : Int64 ← perform .now
    let created := (t / 1000000000).toInt
    let content := (resp.choices.head?.map (·.message.content)).getD ""
    let finish := ((resp.choices.head?.bind fun c => nilIfEmpty c.finishReason)).getD "stop"
    let _ ← writeSSEEvent "" (chunkJSON id created resp.model "assistant" content none)
    flush
    let _ ← writeSSEEvent "" (chunkJSON id created resp.model "" "" (some finish))
    flush
    let _ ← writeSSEDone
    flush

/-- What a cache hit does after the reservation is refunded, in either response format. -/
def finishCacheHit (deps : ChatDeps) (r : Request) (identity : Auth.Identity) (tier : CacheTier)
    (cached : CanonicalResponse) (start : Int64) : ServerM Ended := do
  let elapsed ← since start
  recordCacheHitObservability deps r identity tier cached elapsed
  pure .returned

/-- The variables of the streaming handler that its callback updates. -/
structure StreamState where
  fullContent : String := ""
  completionTokens : Int64 := 0
  finishReason : String := ""
  headersSent : Bool := false
  currentProvider : String := ""
  currentModel : String := ""
  deriving DecidableEq

/-- The variables the callback reads. -/
structure StreamContext where
  id : String
  created : Int
  model : String
  canFlush : Bool
  ttlOverride : Option Duration

def StreamState.receive (counter : Tokenizer.Counter) (s : StreamState) (providerName model : String)
    (d : Delta) : StreamState :=
  { s with
    currentProvider := providerName
    currentModel := model
    fullContent := if d.content ≠ "" then s.fullContent ++ d.content else s.fullContent
    completionTokens :=
      if d.content ≠ "" then s.completionTokens + counter.countText d.content
      else s.completionTokens
    finishReason := if d.finishReason ≠ "" then d.finishReason else s.finishReason }

/-- The headers the first delta commits the response with. -/
def commitStream (deps : ChatDeps) (ctx : StreamContext) (providerName : String) : ServerM Unit := do
  setHeader "Content-Type" "text/event-stream"
  setHeader "Cache-Control" "no-cache"
  setHeader "X-Accel-Buffering" "no"
  setHeader "X-Gateway-Provider" providerName
  setHeader "X-Gateway-Cache" "none"
  setCacheTTLHeader deps.lib ctx.ttlOverride
  writeHeader 200

/-- The chunk sent for one delta, and the flush after it. -/
def sendChunk (ctx : StreamContext) (d : Delta) : ServerM (Option CallError) := do
  let failed ← writeSSEEvent ""
    (chunkJSON ctx.id ctx.created ctx.model "" d.content (nilIfEmpty d.finishReason))
  match failed with
  | some err => pure (some (.other err))
  | none => do
      flush
      pure none

/-- The callback handed to ExecuteStream. -/
def onDelta (deps : ChatDeps) (ctx : StreamContext) (s : StreamState) (providerName model : String)
    (d : Delta) : ServerM (Option CallError × StreamState) :=
  let s := s.receive deps.counter providerName model d
  if s.headersSent then do
    let failed ← sendChunk ctx d
    pure (failed, s)
  else if !ctx.canFlush then
    pure (some (.other
      "streaming unsupported: response writer does not implement http.Flusher"), s)
  else do
    commitStream deps ctx providerName
    let failed ← sendChunk ctx d
    pure (failed, { s with headersSent := true })

/-- The callback answers the engine's deltas; every other operation is passed on. -/
def relay (deps : ChatDeps) (ctx : StreamContext) :
    Handler Retry.Op Retry.Op.Reply Op Op.Reply StreamState
  | s, .onDelta providerName model d => onDelta deps ctx s providerName model d
  | s, o => do
      let reply : o.Reply ← perform (.engine o)
      pure (reply, s)

/-- The engine's operations of a non-streaming call; Execute has no callback. -/
def direct : Handler Retry.Op Retry.Op.Reply Op Op.Reply Unit
  | s, o => do
      let reply : o.Reply ← perform (.engine o)
      pure (reply, s)

/-- What a request carries once its reservation is allowed. -/
structure Admitted where
  req : CanonicalRequest
  identity : Auth.Identity
  tiers : List Tier
  cost : Int64
  scopes : RateLimit.Scopes
  promptTokens : Int64
  start : Int64
  ttlOverride : Option Duration

def streamContext (r : Request) (a : Admitted) (suffix : String) (t : Int64) : StreamContext where
  id := "chatcmpl-" ++ suffix
  created := (t / 1000000000).toInt
  model := a.req.model
  canFlush := r.canFlush
  ttlOverride := a.ttlOverride

/-- The engine only ever returns a StreamError, so `Flushed` decides; writeEngineError
finds no retry.Error in it and therefore no attempts to report. -/
def handleStreamError (deps : ChatDeps) (r : Request) (a : Admitted) (s : StreamState)
    (failure : StreamError) : ServerM Ended :=
  if !failure.flushed then do
    let _ ← perform (.adjust a.scopes a.cost)
    reportEngineError r failure.err []
    pure .returned
  else do
    let actual := a.promptTokens + s.completionTokens
    let _ ← perform (.adjust a.scopes (a.cost - actual))
    let _ ← writeSSEEvent "error" (errorPayload failure.err.error r.requestID)
    flushIf r.canFlush
    let elapsed ← since a.start
    recordPartialStreamObservability deps r a.identity s.currentProvider s.currentModel
      a.promptTokens s.completionTokens elapsed
    pure .returned

/-- The usage a completed stream is billed for: the provider's, or what was counted. -/
def streamUsage (a : Admitted) (s : StreamState) (reported : Option Usage) : Usage :=
  reported.getD
    ⟨a.promptTokens, s.completionTokens, a.promptTokens + s.completionTokens⟩

def finishStream (deps : ChatDeps) (r : Request) (a : Admitted) (ctx : StreamContext)
    (lookup : CacheLookup) (s : StreamState) (result : StreamResult) : ServerM Ended := do
  let finishReason := if s.finishReason = "" then "stop" else s.finishReason
  let usage := streamUsage a s result.usage
  let _ ← writeSSEDone
  flushIf ctx.canFlush
  let actual := usage.promptTokens + usage.completionTokens
  let _ ← perform (.adjust a.scopes (a.cost - actual))
  let elapsed ← since a.start
  recordSuccessObservability deps r a.identity result.provider result.model usage
    result.attempts.length elapsed
  storeInCaches deps lookup
    { id := ctx.id, object := "chat.completion", created := ctx.created, model := a.req.model
      choices := [⟨0, ⟨"assistant", s.fullContent⟩, finishReason⟩], usage } a.ttlOverride
  pure .returned

def handleStreamingChatCompletion (deps : ChatDeps) (r : Request) (a : Admitted) :
    ServerM Ended := do
  let found ← checkCaches deps a.req a.identity
  match found.1 with
  | some (cached, tier) => do
      let _ ← perform (.adjust a.scopes a.cost)
      writeCachedStream r tier cached
      finishCacheHit deps r a.identity tier cached a.start
  | none => do
      let suffix : String ← perform .newRequestID
      let t : Int64 ← perform .now
      let ctx := streamContext r a suffix t
      let streamed ← (deps.engine.executeStream a.tiers a.req).handle (relay deps ctx) {}
      match streamed.1 with
      | none => pure .outOfFuel
      | some (.error failure) => handleStreamError deps r a streamed.2 failure
      | some (.ok result) => finishStream deps r a ctx found.2 streamed.2 result

/-- The response of a successful Execute, written before anything is settled. -/
def writeCompletion (deps : ChatDeps) (a : Admitted) (result : Result) (response : CanonicalResponse) :
    ServerM Unit := do
  setHeader "X-Gateway-Provider" result.provider
  setHeader "X-Gateway-Attempts" (formatAttempts result.attempts)
  setHeader "X-Gateway-Cache" "none"
  setCacheTTLHeader deps.lib a.ttlOverride
  setHeader "Content-Type" "application/json"
  writeHeader 200
  let _ ← write (encodeLine (responseJSON response))

/-- The rest of the handler after a successful Execute. -/
def finishCompletion (deps : ChatDeps) (r : Request) (a : Admitted) (lookup : CacheLookup)
    (result : Result) : ServerM Ended :=
  match result.response with
  | none => pure .panicked
  | some answer => do
      let response := { answer with model := a.req.model }
      writeCompletion deps a result response
      storeInCaches deps lookup response a.ttlOverride
      let actual := response.usage.promptTokens + response.usage.completionTokens
      let _ ← perform (.adjust a.scopes (a.cost - actual))
      let elapsed ← since a.start
      recordSuccessObservability deps r a.identity result.provider result.model response.usage
        result.attempts.length elapsed
      pure .returned

/-- The non-streaming branch of the handler. -/
def completeChat (deps : ChatDeps) (r : Request) (a : Admitted) : ServerM Ended := do
  let found ← checkCaches deps a.req a.identity
  match found.1 with
  | some (cached, tier) => do
      let _ ← perform (.adjust a.scopes a.cost)
      writeCachedResponse tier cached
      finishCacheHit deps r a.identity tier cached a.start
  | none => do
      let executed ← (deps.engine.execute a.tiers a.req).handle direct ()
      match executed.1 with
      | none => pure .outOfFuel
      | some (.error failure) => do
          let _ ← perform (.adjust a.scopes a.cost)
          reportEngineError r failure.err failure.attempts
          pure .returned
      | some (.ok result) => finishCompletion deps r a found.2 result

/-- What the handler computes from a request before it reserves. -/
structure Prepared where
  req : CanonicalRequest
  identity : Auth.Identity
  tiers : List Tier
  ttlOverride : Option Duration

/-- The checks before the reservation: the status and message of the first that fails. -/
def prepare (deps : ChatDeps) (r : Request) : Except (Int × String) Prepared :=
  match r.body with
  | .error err => .error (400, "invalid JSON body: " ++ err)
  | .ok req =>
      if req.model = "" then .error (400, "model is required")
      else if req.messages = [] then .error (400, "messages must not be empty")
      else
        match resolveCacheTTLOverride deps.lib req.cacheTTL deps.cacheMaxClientTTL with
        | .error err => .error (400, err)
        | .ok ttlOverride =>
            let unknown := (400, "unknown model " ++ Config.quote deps.lib.isPrint req.model)
            match deps.resolve req.model with
            | .error _ => .error unknown
            | .ok tiers =>
                if tiers = [] then .error unknown
                else
                  match r.identity with
                  | none => .error (500, "no identity resolved for this request")
                  | some identity => .ok { req, identity, tiers, ttlOverride }

def estimatedCompletion (deps : ChatDeps) (req : CanonicalRequest) : Int64 :=
  req.maxTokens.getD deps.estimateCompletionTokens

/-- The cost handed to Reserve, in the 64-bit arithmetic of the handler. -/
def reservationCost (deps : ChatDeps) (req : CanonicalRequest) : Int64 :=
  deps.counter.countMessages req.messages + estimatedCompletion deps req

def requestScopes (deps : ChatDeps) (identity : Auth.Identity) : RateLimit.Scopes where
  orgID := identity.orgID
  teamID := identity.teamID
  keyID := identity.keyID
  orgCapacity := identity.orgTPMLimit
  teamCapacity := identity.teamTPMLimit
  keyCapacity := identity.keyTPMLimit.getD deps.defaultTPM

/-- What the handler hands on once the reservation is allowed. -/
def afterReserve (deps : ChatDeps) (p : Prepared) (start : Int64) : Admitted where
  req := p.req
  identity := p.identity
  tiers := p.tiers
  cost := reservationCost deps p.req
  scopes := requestScopes deps p.identity
  promptTokens := deps.counter.countMessages p.req.messages
  start := start
  ttlOverride := p.ttlOverride

def handleChatCompletions (deps : ChatDeps) (r : Request) : ServerM Ended := do
  let start : Int64 ← perform .now
  match prepare deps r with
  | .error (status, message) => do
      writeJSONError r status message
      pure .returned
  | .ok p => do
      let decided : Except String RateLimit.Decision ←
        perform (.reserve (requestScopes deps p.identity) (reservationCost deps p.req))
      match decided with
      | .error err => do
          writeJSONError r 500 ("rate limit check failed: " ++ err)
          pure .returned
      | .ok decision =>
          if !decision.allowed then do
            writeRateLimitRejection r decision
            pure .returned
          else
            let a := afterReserve deps p start
            if p.req.stream then handleStreamingChatCompletion deps r a
            else completeChat deps r a

/-- Surroundings in which every lookup misses, every write and store succeeds and the
limiter allows; only the answers to the engine are given. -/
def smooth (engine : (o : Retry.Op) → o.Reply) (_ : Trace) : (op : Op) → op.Reply
  | .engine o => engine o
  | .reserve _ _ => .ok { allowed := true }
  | .adjust _ _ | .cacheSet _ _ _ => none
  | .cacheGet _ => .ok none
  | .embed _ => .error "no model"
  | .semanticGet _ => none
  | .semanticSet _ _ _ | .record _ | .countFailure _ _ => ()
  | .http (.write _) => none
  | .http (.setHeader _ _) | .http (.writeHeader _) | .http .flush => ()
  | .now => 0
  | .newRequestID => "1"

/-- A deployment with one provider, the exact cache and a ledger. A text is one token per
character, and requests are keyed by their model. -/
def oneProvider : ChatDeps where
  resolve _ := .ok [⟨[⟨"primary", "large", 1⟩]⟩]
  engine := Engine.uniform ⟨1, 0, 0⟩
  counter := ⟨fun text => text.toList.map Char.toNat⟩
  defaultTPM := 1000
  estimateCompletionTokens := 100
  cache := true
  cacheNonzeroTemperature := true
  cacheMaxClientTTL := 0
  embedder := false
  semanticCache := false
  ledger := true
  lib := ⟨fun req => some req.model, some, id, fun _ => .error "no duration", fun _ => "", fun _ => true⟩

def caller : Auth.Identity where
  orgID := "acme"
  teamID := "search"
  keyID := "k1"
  orgTPMLimit := 1000
  teamTPMLimit := 1000

def hello : CanonicalRequest := { model := "chat", messages := [⟨"user", "hi"⟩] }

def asked (req : CanonicalRequest) : Request := ⟨.ok req, some caller, "r1", true⟩

end Gateway.Server
