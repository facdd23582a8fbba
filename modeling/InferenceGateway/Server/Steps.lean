import InferenceGateway.Retry.Splicing
import InferenceGateway.Server.Chat

/-! What one run of each piece of the chat handlers does, read off its trace. The later
modules reason from these case lists and never unfold a handler again. -/
namespace Gateway.Server
open Gateway.Providers Gateway.Retry
open Interaction hiding Program.perform
open Interaction.Program hiding pure perform

def adjustment : Event Op Op.Reply → Option (RateLimit.Scopes × Int64)
  | ⟨.adjust scopes delta, _⟩ => some (scopes, delta)
  | _ => none

/-- The Adjust calls of a run. -/
def adjusts (tr : Trace) : List (RateLimit.Scopes × Int64) := tr.filterMap adjustment

def recording : Event Op Op.Reply → Option Ledger.Entry
  | ⟨.record entry, _⟩ => some entry
  | _ => none

/-- The ledger entries a run records. -/
def records (tr : Trace) : List Ledger.Entry := tr.filterMap recording

def admission : Event Op Op.Reply → Option (RateLimit.Scopes × Int64)
  | ⟨.reserve scopes cost, .ok decision⟩ => if decision.allowed then some (scopes, cost) else none
  | _ => none

/-- The reservations a run was allowed. -/
def admissions (tr : Trace) : List (RateLimit.Scopes × Int64) := tr.filterMap admission

def cacheHit : Event Op Op.Reply → Option CanonicalResponse
  | ⟨.cacheGet _, .ok (some cached)⟩ => some cached
  | ⟨.semanticGet _, some cached⟩ => some cached
  | _ => none

/-- The responses the caches served. -/
def cacheHits (tr : Trace) : List CanonicalResponse := tr.filterMap cacheHit

def storing : Event Op Op.Reply → Option CanonicalResponse
  | ⟨.cacheSet _ resp _, _⟩ => some resp
  | ⟨.semanticSet _ resp _, _⟩ => some resp
  | _ => none

/-- The responses a run stores, in either tier. -/
def stores (tr : Trace) : List CanonicalResponse := tr.filterMap storing

def httpCall : Event Op Op.Reply → Option Http.Call
  | ⟨.http call, _⟩ => some call
  | _ => none

def httpCalls (tr : Trace) : List Http.Call := tr.filterMap httpCall

def engineEvent : Event Op Op.Reply → Option (Event Retry.Op Retry.Op.Reply)
  | ⟨.engine o, reply⟩ => some ⟨o, reply⟩
  | _ => none

/-- The engine's part of a trace. -/
def engineEvents (tr : Trace) : Retry.Trace := tr.filterMap engineEvent

/-- Operations that settle nothing: no reservation, no adjustment, no ledger entry. -/
def Op.isQuiet : Op → Prop
  | .reserve _ _ | .adjust _ _ | .record _ => False
  | _ => True

def Op.isHttp : Op → Prop
  | .http _ => True
  | _ => False

def Op.isLookup : Op → Prop
  | .cacheGet _ | .embed _ | .semanticGet _ => True
  | _ => False

def Op.isStore : Op → Prop
  | .cacheSet _ _ _ | .semanticSet _ _ _ => True
  | _ => False

def Op.isRelay : Op → Prop
  | .engine _ | .http _ => True
  | _ => False

theorem Op.isHttp.quiet {o : Op} (h : o.isHttp) : o.isQuiet := by
  cases o with
  | http call => trivial
  | _ => cases h

theorem Op.isHttp.relay {o : Op} (h : o.isHttp) : o.isRelay := by
  cases o with
  | http call => trivial
  | _ => cases h

theorem Op.isRelay.quiet {o : Op} (h : o.isRelay) : o.isQuiet := by
  cases o with
  | engine o => trivial
  | http call => trivial
  | _ => cases h

theorem Op.isLookup.quiet {o : Op} (h : o.isLookup) : o.isQuiet := by
  cases o with
  | cacheGet key => trivial
  | embed text => trivial
  | semanticGet q => trivial
  | _ => cases h

theorem Op.isStore.quiet {o : Op} (h : o.isStore) : o.isQuiet := by
  cases o with
  | cacheSet key resp ttlOverride => trivial
  | semanticSet q resp ttlOverride => trivial
  | _ => cases h

/-- Operations of telling a failure. -/
def Op.isReport : Op → Prop
  | .http _ | .countFailure _ _ => True
  | _ => False

/-- Operations of the endings: after the engine has answered, or a cache has. -/
def Op.isEnding : Op → Prop
  | .http _ | .adjust _ _ | .now | .record _ | .countFailure _ _ | .cacheSet _ _ _
  | .semanticSet _ _ _ => True
  | _ => False

/-- The operations of an ending that stores nothing. -/
def Op.isSettling : Op → Prop
  | .http _ | .adjust _ _ | .now | .record _ | .countFailure _ _ => True
  | _ => False

/-- The operations of serving a cached response. -/
def Op.isReplay : Op → Prop
  | .http _ | .newRequestID | .now => True
  | _ => False

theorem Op.isHttp.replay {o : Op} (h : o.isHttp) : o.isReplay := by
  cases o with
  | http call => trivial
  | _ => cases h

theorem Op.isReplay.quiet {o : Op} (h : o.isReplay) : o.isQuiet := by
  cases o <;> trivial

theorem Op.isHttp.settling {o : Op} (h : o.isHttp) : o.isSettling := by
  cases o with
  | http call => trivial
  | _ => cases h

theorem Op.isHttp.report {o : Op} (h : o.isHttp) : o.isReport := by
  cases o with
  | http call => trivial
  | _ => cases h

theorem Op.isReport.settling {o : Op} (h : o.isReport) : o.isSettling := by
  cases o <;> trivial

theorem Op.isReport.quiet {o : Op} (h : o.isReport) : o.isQuiet := by
  cases o <;> trivial

theorem Op.isSettling.ending {o : Op} (h : o.isSettling) : o.isEnding := by
  cases o <;> trivial

theorem Op.isHttp.ending {o : Op} (h : o.isHttp) : o.isEnding := h.settling.ending

theorem Op.isStore.ending {o : Op} (h : o.isStore) : o.isEnding := by
  cases o with
  | cacheSet key resp ttlOverride => trivial
  | semanticSet q resp ttlOverride => trivial
  | _ => cases h

/-- An observation that ignores a class of operations sees nothing of a trace of them. -/
theorem unobserved {β : Type} {see : Event Op Op.Reply → Option β} {allowed : Op → Prop}
    (blind : ∀ op reply, allowed op → see ⟨op, reply⟩ = none) {tr : Trace}
    (h : ∀ ev ∈ tr, allowed ev.1) : tr.filterMap see = [] :=
  List.filterMap_eq_nil_iff.mpr fun ev member => blind ev.1 ev.2 (h ev member)

section Quiet
variable {tr : Trace} (h : ∀ ev ∈ tr, ev.1.isQuiet)
include h

theorem adjusts_of_quiet : adjusts tr = [] := by
  refine unobserved ?_ h
  intro op reply quiet
  cases op <;> first | rfl | exact quiet.elim

theorem records_of_quiet : records tr = [] := by
  refine unobserved ?_ h
  intro op reply quiet
  cases op <;> first | rfl | exact quiet.elim

end Quiet

theorem setHeader_within (name value : String) : Within Op.isHttp (setHeader name value) :=
  .perform trivial

theorem writeHeader_within (status : Int) : Within Op.isHttp (writeHeader status) :=
  .perform trivial

theorem write_within (text : String) : Within Op.isHttp (write text) := .perform trivial

theorem flush_within : Within Op.isHttp flush := .perform trivial

theorem flushIf_within (canFlush : Bool) : Within Op.isHttp (flushIf canFlush) := by
  unfold flushIf
  split
  · exact flush_within
  · exact .pure ()

theorem writeJSONError_within (r : Request) (status : Int) (message : String) :
    Within Op.isHttp (writeJSONError r status message) :=
  (setHeader_within _ _).bind fun _ => (writeHeader_within _).bind fun _ =>
    (write_within _).bind fun _ => .pure ()

theorem writeEngineError_within (r : Request) (err : EngineError) (attempts : List Attempt) :
    Within Op.isHttp (writeEngineError r err attempts) := by
  refine Within.bind ?_ fun _ => (writeJSONError_within _ _ _).bind fun _ => .pure _
  unfold setAttemptsHeader
  split
  · exact .pure ()
  · exact setHeader_within _ _

theorem reportEngineError_within (r : Request) (err : EngineError) (attempts : List Attempt) :
    Within Op.isReport (reportEngineError r err attempts) :=
  ((writeEngineError_within r err attempts).mono fun _ => Op.isHttp.report).bind
    fun _ => .perform trivial

theorem writeRateLimitRejection_within (r : Request) (d : RateLimit.Decision) :
    Within Op.isHttp (writeRateLimitRejection r d) :=
  (setHeader_within _ _).bind fun _ => (setHeader_within _ _).bind fun _ =>
    (setHeader_within _ _).bind fun _ => writeJSONError_within _ _ _

theorem writeCachedResponse_within (tier : CacheTier) (resp : CanonicalResponse) :
    Within Op.isHttp (writeCachedResponse tier resp) :=
  (setHeader_within _ _).bind fun _ => (setHeader_within _ _).bind fun _ =>
    (writeHeader_within _).bind fun _ => (write_within _).bind fun _ => .pure ()

theorem writeSSEEvent_within (event : String) (data : Json.Value) :
    Within Op.isHttp (writeSSEEvent event data) := by
  apply Within.bind
  · unfold writeEventName
    split
    · exact write_within _
    · exact .pure none
  · intro named
    cases named with
    | some err => exact .pure _
    | none => exact write_within _

theorem setCacheTTLHeader_within (lib : Library) (ttlOverride : Option Duration) :
    Within Op.isHttp (setCacheTTLHeader lib ttlOverride) := by
  unfold setCacheTTLHeader
  split
  · exact setHeader_within _ _
  · exact .pure ()

theorem writeCompletion_within (deps : ChatDeps) (a : Admitted) (result : Result)
    (response : CanonicalResponse) : Within Op.isHttp (writeCompletion deps a result response) :=
  (setHeader_within _ _).bind fun _ => (setHeader_within _ _).bind fun _ =>
    (setHeader_within _ _).bind fun _ => (setCacheTTLHeader_within _ _).bind fun _ =>
    (setHeader_within _ _).bind fun _ => (writeHeader_within _).bind fun _ =>
    (write_within _).bind fun _ => .pure ()

theorem sendChunk_within (ctx : StreamContext) (d : Delta) : Within Op.isHttp (sendChunk ctx d) := by
  refine (writeSSEEvent_within _ _).bind ?_
  intro failed
  cases failed with
  | some err => exact .pure _
  | none => exact flush_within.bind fun _ => .pure none

theorem commitStream_within (deps : ChatDeps) (ctx : StreamContext) (providerName : String) :
    Within Op.isHttp (commitStream deps ctx providerName) :=
  (setHeader_within _ _).bind fun _ => (setHeader_within _ _).bind fun _ =>
    (setHeader_within _ _).bind fun _ => (setHeader_within _ _).bind fun _ =>
    (setHeader_within _ _).bind fun _ => (setCacheTTLHeader_within _ _).bind fun _ =>
    writeHeader_within _

theorem onDelta_within (deps : ChatDeps) (ctx : StreamContext) (s : StreamState)
    (providerName model : String) (d : Delta) :
    Within Op.isHttp (onDelta deps ctx s providerName model d) := by
  unfold onDelta
  simp only
  split
  · exact (sendChunk_within _ _).bind fun _ => .pure _
  · split
    · exact .pure _
    · exact (commitStream_within _ _ _).bind fun _ => (sendChunk_within _ _).bind fun _ => .pure _

theorem writeCachedStream_within (r : Request) (tier : CacheTier) (resp : CanonicalResponse) :
    Within Op.isReplay (writeCachedStream r tier resp) := by
  have http : ∀ {α : Type} {p : ServerM α}, Within Op.isHttp p → Within Op.isReplay p :=
    fun h => h.mono fun _ => Op.isHttp.replay
  unfold writeCachedStream
  split
  · exact http (writeCachedResponse_within _ _)
  · refine .bind (http (setHeader_within _ _)) fun _ => .bind (http (setHeader_within _ _)) fun _ =>
      .bind (http (setHeader_within _ _)) fun _ => .bind (http (setHeader_within _ _)) fun _ =>
      .bind (http (writeHeader_within _)) fun _ => .bind (.perform trivial) fun _ =>
      .bind (.perform trivial) fun _ => http ?_
    exact (writeSSEEvent_within _ _).bind fun _ => flush_within.bind fun _ =>
      (writeSSEEvent_within _ _).bind fun _ => flush_within.bind fun _ =>
      (write_within _).bind fun _ => flush_within

theorem checkSemantic_within (deps : ChatDeps) (req : CanonicalRequest) (identity : Auth.Identity)
    (exactCacheKey : String) : Within Op.isLookup (checkSemantic deps req identity exactCacheKey) := by
  unfold checkSemantic
  simp only
  split
  · refine .bind (.perform trivial) ?_
    intro vector
    cases vector with
    | error err => exact .pure _
    | ok vector =>
        refine .bind (.perform trivial) ?_
        intro hit
        cases hit with
        | some cached => exact .pure _
        | none => exact .pure _
  · exact .pure _

theorem checkCaches_within (deps : ChatDeps) (req : CanonicalRequest) (identity : Auth.Identity) :
    Within Op.isLookup (checkCaches deps req identity) := by
  unfold checkCaches
  split
  · split
    · exact checkSemantic_within _ _ _ _
    · refine .bind (.perform trivial) ?_
      intro found
      cases found with
      | error err => exact checkSemantic_within _ _ _ _
      | ok found =>
          cases found with
          | some cached => exact .pure _
          | none => exact checkSemantic_within _ _ _ _
  · exact checkSemantic_within _ _ _ _

/-- Whether a request is looked up in Tier 2. -/
def consultsSemantic (deps : ChatDeps) (req : CanonicalRequest) : Bool :=
  deps.embedder && deps.semanticCache && eligible req deps.cacheNonzeroTemperature

/-- What a request is looked up and stored under, for its embedding. -/
def queryOf (deps : ChatDeps) (req : CanonicalRequest) (identity : Auth.Identity)
    (vector : Embedding.Vector) : Semantic.Query where
  tenantID := identity.orgID
  model := req.model
  toolsCanonical := (deps.lib.canonicalizeJSON req.tools).getD ""
  responseFormatCanonical := (deps.lib.canonicalizeJSON req.responseFormat).getD ""
  vector := vector

/-- The ways a Tier-2 lookup goes. -/
inductive SemanticRun (deps : ChatDeps) (req : CanonicalRequest) (identity : Auth.Identity)
    (exactCacheKey : String) : Trace → Lookup → Prop
  | skipped : consultsSemantic deps req = false →
      SemanticRun deps req identity exactCacheKey [] (none, { exactCacheKey })
  | failed {err : String} : consultsSemantic deps req = true →
      SemanticRun deps req identity exactCacheKey
        [⟨.embed (concatUserTurns req.messages), .error err⟩] (none, { exactCacheKey })
  | asked {vector : Embedding.Vector} {hit : Option CanonicalResponse} :
      consultsSemantic deps req = true →
      SemanticRun deps req identity exactCacheKey
        [⟨.embed (concatUserTurns req.messages), .ok vector⟩,
          ⟨.semanticGet (queryOf deps req identity vector), hit⟩]
        (hit.map fun cached => (cached, .semantic),
          { exactCacheKey, semanticQuery := queryOf deps req identity vector
            semanticEligible := true })

theorem checkSemantic_cases {deps : ChatDeps} {req : CanonicalRequest} {identity : Auth.Identity}
    {exactCacheKey : String} {tr : Trace} {found : Lookup}
    (h : Runs (checkSemantic deps req identity exactCacheKey) tr found) :
    SemanticRun deps req identity exactCacheKey tr found := by
  unfold checkSemantic at h
  change Runs (if consultsSemantic deps req = true then _ else _) tr found at h
  split at h
  · rename_i consulted
    obtain ⟨vector, tr', rfl, rest⟩ := runs_perform_bind.mp h
    cases vector with
    | error err =>
        obtain ⟨rfl, rfl⟩ := runs_pure.mp rest
        exact .failed consulted
    | ok vector =>
        obtain ⟨hit, tr'', rfl, last⟩ := runs_perform_bind.mp rest
        cases hit with
        | some cached =>
            obtain ⟨rfl, rfl⟩ := runs_pure.mp last
            exact .asked consulted
        | none =>
            obtain ⟨rfl, rfl⟩ := runs_pure.mp last
            exact .asked consulted
  · rename_i skipped
    obtain ⟨rfl, rfl⟩ := runs_pure.mp h
    exact .skipped (Bool.eq_false_iff.mpr skipped)

/-- The ways a lookup goes: a Tier-1 hit, or Tier 2 after a miss or without Tier 1. -/
inductive LookupRun (deps : ChatDeps) (req : CanonicalRequest) (identity : Auth.Identity) :
    Trace → Lookup → Prop
  | exact {key : String} {cached : CanonicalResponse} :
      LookupRun deps req identity [⟨.cacheGet key, .ok (some cached)⟩]
        (some (cached, .exact), { exactCacheKey := key })
  | missed {key : String} {reply : Except String (Option CanonicalResponse)} {tr : Trace}
      {found : Lookup} : (∀ cached, reply ≠ .ok (some cached)) →
      SemanticRun deps req identity key tr found →
      LookupRun deps req identity (⟨.cacheGet key, reply⟩ :: tr) found
  | direct {key : String} {tr : Trace} {found : Lookup} :
      SemanticRun deps req identity key tr found → LookupRun deps req identity tr found

theorem checkCaches_cases {deps : ChatDeps} {req : CanonicalRequest} {identity : Auth.Identity}
    {tr : Trace} {found : Lookup} (h : Runs (checkCaches deps req identity) tr found) :
    LookupRun deps req identity tr found := by
  unfold checkCaches at h
  split at h
  · split at h
    · exact .direct (checkSemantic_cases h)
    · obtain ⟨reply, tr', rfl, rest⟩ := runs_perform_bind.mp h
      cases reply with
      | error err => exact .missed nofun (checkSemantic_cases rest)
      | ok found =>
          cases found with
          | some cached =>
              obtain ⟨rfl, rfl⟩ := runs_pure.mp rest
              exact .exact
          | none => exact .missed nofun (checkSemantic_cases rest)
  · exact .direct (checkSemantic_cases h)

theorem SemanticRun.hits {deps : ChatDeps} {req : CanonicalRequest} {identity : Auth.Identity}
    {exactCacheKey : String} {tr : Trace} {found : Lookup}
    (h : SemanticRun deps req identity exactCacheKey tr found) :
    cacheHits tr = (found.1.map Prod.fst).toList := by
  cases h with
  | skipped consulted => rfl
  | failed consulted => rfl
  | @asked vector hit consulted => cases hit <;> rfl

/-- A lookup answers with the one response a cache served, if any did. -/
theorem checkCaches_hits {deps : ChatDeps} {req : CanonicalRequest} {identity : Auth.Identity}
    {tr : Trace} {found : Lookup} (h : Runs (checkCaches deps req identity) tr found) :
    cacheHits tr = (found.1.map Prod.fst).toList := by
  cases checkCaches_cases h with
  | exact => rfl
  | direct semantic => exact semantic.hits
  | @missed key reply tr found miss semantic =>
      have unseen : cacheHit ⟨.cacheGet key, reply⟩ = none := by
        cases reply with
        | error err => rfl
        | ok cached =>
            cases cached with
            | none => rfl
            | some cached => exact absurd rfl (miss cached)
      unfold cacheHits
      rw [List.filterMap_cons_none unseen]
      exact semantic.hits

theorem storeInCaches_within (deps : ChatDeps) (lookup : CacheLookup) (resp : CanonicalResponse)
    (ttlOverride : Option Duration) :
    Within Op.isStore (storeInCaches deps lookup resp ttlOverride) := by
  unfold storeInCaches
  split
  · exact .pure ()
  · apply Within.bind
    · unfold storeExact
      split
      · exact .perform trivial
      · exact .pure none
    · intro _
      unfold storeSemantic
      split
      · exact .perform trivial
      · exact .pure ()

theorem runs_since {start : Int64} {tr : Trace} {elapsed : Duration}
    (h : Runs (since start) tr elapsed) : ∃ t, tr = [⟨.now, t⟩] := by
  obtain ⟨t, tr', rfl, rest⟩ := runs_perform_bind.mp h
  obtain ⟨rfl, -⟩ := runs_pure.mp rest
  exact ⟨t, rfl⟩

theorem runs_record {deps : ChatDeps} {entry : Ledger.Entry} {tr : Trace} {u : Unit}
    (h : Runs (record deps entry) tr u) : tr = if deps.ledger then [⟨.record entry, ()⟩] else [] := by
  unfold record at h
  split at h
  · rename_i present
    rw [runs_perform.mp h, if_pos present]
  · rename_i absent
    rw [(runs_pure.mp h).1, if_neg absent]

section Endings
variable (deps : ChatDeps) (r : Request) (a : Admitted)

theorem since_within (start : Int64) : Within Op.isSettling (since start) :=
  (Within.perform trivial).bind fun _ => .pure _

theorem record_within (entry : Ledger.Entry) : Within Op.isSettling (record deps entry) := by
  unfold record
  split
  · exact .perform trivial
  · exact .pure ()

theorem finishCacheHit_within (identity : Auth.Identity) (tier : CacheTier)
    (cached : CanonicalResponse) (start : Int64) :
    Within Op.isSettling (finishCacheHit deps r identity tier cached start) :=
  (since_within start).bind fun _ => (record_within deps _).bind fun _ => .pure _

theorem handleStreamError_within (s : StreamState) (failure : StreamError) :
    Within Op.isSettling (handleStreamError deps r a s failure) := by
  unfold handleStreamError
  split
  · exact .bind (.perform trivial) fun _ =>
      .bind ((reportEngineError_within _ _ _).mono fun _ => Op.isReport.settling) fun _ => .pure _
  · exact .bind (.perform trivial) fun _ =>
      .bind ((writeSSEEvent_within _ _).mono fun _ => Op.isHttp.settling) fun _ =>
      .bind ((flushIf_within _).mono fun _ => Op.isHttp.settling) fun _ =>
      .bind (since_within _) fun _ => .bind (record_within deps _) fun _ => .pure _

theorem finishStream_within (ctx : StreamContext) (lookup : CacheLookup) (s : StreamState)
    (result : StreamResult) :
    Within Op.isEnding (finishStream deps r a ctx lookup s result) :=
  .bind ((write_within _).mono fun _ => Op.isHttp.ending) fun _ =>
    .bind ((flushIf_within _).mono fun _ => Op.isHttp.ending) fun _ =>
    .bind (.perform trivial) fun _ =>
    .bind ((since_within _).mono fun _ => Op.isSettling.ending) fun _ =>
    .bind ((record_within deps _).mono fun _ => Op.isSettling.ending) fun _ =>
    .bind ((storeInCaches_within _ _ _ _).mono fun _ => Op.isStore.ending) fun _ => .pure _

theorem finishCompletion_within (lookup : CacheLookup) (result : Result) :
    Within Op.isEnding (finishCompletion deps r a lookup result) := by
  unfold finishCompletion
  split
  · exact .pure _
  · exact .bind ((writeCompletion_within _ _ _ _).mono fun _ => Op.isHttp.ending) fun _ =>
      .bind ((storeInCaches_within _ _ _ _).mono fun _ => Op.isStore.ending) fun _ =>
      .bind (.perform trivial) fun _ =>
      .bind ((since_within _).mono fun _ => Op.isSettling.ending) fun _ =>
      .bind ((record_within deps _).mono fun _ => Op.isSettling.ending) fun _ => .pure _

end Endings

end Gateway.Server
