import InferenceGateway.Interaction.Recorder
import InferenceGateway.Server.Runs

/-! In whose name a chat handler works. What it asks of the stores it shares with other
requests is under the identity, the cache key and the TTL of its own request. -/
namespace Gateway.Server
open Gateway.Providers Gateway.Retry
open Interaction hiding Program.perform
open Interaction.Program hiding pure perform

/-- The key a request is looked up and stored under in the exact cache, if it is at all. -/
def cacheKey (deps : ChatDeps) (p : Prepared) : Option String :=
  if deps.cache && eligible p.req deps.cacheNonzeroTemperature then
    (deps.lib.canonicalize p.req).map (exactKey deps.lib p.identity.orgID)
  else none

/-- Stored for as long as the request's own hint, which is positive if there is one. -/
def TimedBy (p : Prepared) (ttlOverride : Option Duration) : Prop :=
  ttlOverride = p.ttlOverride ∧ ∀ d, ttlOverride = some d → 0 < d

/-- A hit bills nothing, and what is billed saves nothing. -/
def Tiered (entry : Ledger.Entry) : Prop :=
  (entry.cacheTier = "none" ∧ entry.tokensSaved = 0) ∨
    ((∃ tier : CacheTier, entry.cacheTier = tier.name) ∧ entry.promptTokens = 0 ∧
      entry.completionTokens = 0 ∧ entry.costUSD = 0)

/-- Operations on what requests share, in the name of the one prepared here. -/
def Op.Owned (deps : ChatDeps) (r : Request) (p : Prepared) : Op → Prop
  | .reserve scopes _ | .adjust scopes _ => scopes = requestScopes deps p.identity
  | .cacheGet key => cacheKey deps p = some key
  | .cacheSet key _ ttlOverride => cacheKey deps p = some key ∧ TimedBy p ttlOverride
  | .semanticGet q => ∃ vector, q = queryOf deps p.req p.identity vector
  | .semanticSet q _ ttlOverride =>
      (∃ vector, q = queryOf deps p.req p.identity vector) ∧ TimedBy p ttlOverride
  | .record entry => entry.requestID = r.requestID ∧ entry.orgID = p.identity.orgID ∧
      entry.teamID = p.identity.teamID ∧ entry.virtualKeyID = p.identity.keyID ∧ Tiered entry
  | _ => True

/-- Operations on nothing that is shared. -/
def Op.isPrivate : Op → Prop
  | .reserve _ _ | .adjust _ _ | .cacheGet _ | .cacheSet _ _ _ | .semanticGet _
  | .semanticSet _ _ _ | .record _ => False
  | _ => True

/-- What a handler may ask: nothing shared unless the request passed its checks. -/
def Op.Permitted (deps : ChatDeps) (r : Request) (op : Op) : Prop :=
  op.isPrivate ∨ ∃ p, prepare deps r = .ok p ∧ op.Owned deps r p

theorem Op.isHttp.private {o : Op} (h : o.isHttp) : o.isPrivate := by
  cases o with
  | http call => trivial
  | _ => cases h

theorem Op.isReport.private {o : Op} (h : o.isReport) : o.isPrivate := by
  cases o <;> trivial

theorem Op.isReplay.private {o : Op} (h : o.isReplay) : o.isPrivate := by
  cases o <;> trivial

theorem Op.isRelay.private {o : Op} (h : o.isRelay) : o.isPrivate := by
  cases o with
  | engine o => trivial
  | http call => trivial
  | _ => cases h

theorem Op.isPrivate.owned {deps : ChatDeps} {r : Request} {p : Prepared} {o : Op}
    (h : o.isPrivate) : o.Owned deps r p := by
  cases o <;> trivial

/-- What a lookup hands on to the store of the response. -/
structure CacheLookup.Fits (deps : ChatDeps) (p : Prepared) (lookup : CacheLookup) : Prop where
  key : lookup.exactCacheKey = "" ∨ cacheKey deps p = some lookup.exactCacheKey
  query : lookup.semanticEligible = true →
    ∃ vector, lookup.semanticQuery = queryOf deps p.req p.identity vector

section Handlers
variable {deps : ChatDeps} {r : Request} {p : Prepared} {start : Int64} {α : Type}

/-- The handler keeps to its own request and returns what `post` describes. -/
def Keeps (deps : ChatDeps) (r : Request) (p : Prepared) (post : α → Prop) (q : ServerM α) : Prop :=
  q.Follows (allowing (Op.Owned deps r p)) (fun a _ => post a) ()

def anything (_ : α) : Prop := True

theorem keeps_private {q : ServerM α} (h : Within Op.isPrivate q) : Keeps deps r p anything q := by
  have still := Follows.of_within (P := allowing (Op.Owned deps r p)) (I := fun _ => True) (m := ()) h
  refine (still ?_ trivial).mono fun _ _ _ => trivial
  intro op reply _ alone _
  exact ⟨alone.owned, fun _ => trivial⟩

theorem keeps_pure {post : α → Prop} {a : α} (h : post a) :
    Keeps deps r p post (pure a : ServerM α) := h

theorem Keeps.bind {β : Type} {mid : α → Prop} {post : β → Prop} {q : ServerM α} {f : α → ServerM β}
    (first : Keeps deps r p mid q) (rest : ∀ a, mid a → Keeps deps r p post (f a)) :
    Keeps deps r p post (q >>= f) :=
  Follows.bind first fun a _ met => rest a met

theorem keeps_perform {op : Op} (own : op.Owned deps r p) :
    Keeps deps r p anything (perform op) := fun _ => ⟨own, fun _ => trivial⟩

theorem Keeps.ask {β : Type} {post : β → Prop} {op : Op} {f : op.Reply → ServerM β}
    (own : op.Owned deps r p) (rest : ∀ reply, Keeps deps r p post (f reply)) :
    Keeps deps r p post (perform op >>= f) :=
  (keeps_perform own).bind fun reply _ => rest reply

theorem Keeps.row {β : Type} {post : β → Prop} {entry : Ledger.Entry} {f : Unit → ServerM β}
    (own : (Op.record entry).Owned deps r p) (rest : Keeps deps r p post (f ())) :
    Keeps deps r p post (record deps entry >>= f) := by
  unfold record
  split
  · exact Keeps.ask own fun _ => rest
  · exact rest

/-- Private steps may be put before anything. -/
theorem Keeps.after {β : Type} {post : β → Prop} {q : ServerM α} {f : α → ServerM β}
    (h : Within Op.isPrivate q) (rest : ∀ a, Keeps deps r p post (f a)) :
    Keeps deps r p post (q >>= f) :=
  (keeps_private h).bind fun a _ => rest a

theorem since_private (start : Int64) : Within Op.isPrivate (since start) :=
  (Within.perform trivial).bind fun _ => .pure _

theorem checkSemantic_keeps {key : String} (fits : key = "" ∨ cacheKey deps p = some key) :
    Keeps deps r p (fun found => found.2.Fits deps p)
      (checkSemantic deps p.req p.identity key) := by
  unfold checkSemantic
  simp only
  split
  · refine Keeps.after (.perform trivial) ?_
    intro vector
    cases vector with
    | error err => exact keeps_pure ⟨fits, nofun⟩
    | ok vector =>
        refine Keeps.ask ⟨vector, rfl⟩ ?_
        intro hit
        cases hit with
        | some cached => exact keeps_pure ⟨fits, fun _ => ⟨vector, rfl⟩⟩
        | none => exact keeps_pure ⟨fits, fun _ => ⟨vector, rfl⟩⟩
  · exact keeps_pure ⟨fits, nofun⟩

theorem checkCaches_keeps :
    Keeps deps r p (fun found => found.2.Fits deps p) (checkCaches deps p.req p.identity) := by
  unfold checkCaches
  split
  · rename_i cacheable
    cases canonical : deps.lib.canonicalize p.req with
    | none => exact checkSemantic_keeps (.inl rfl)
    | some canon =>
        have own : cacheKey deps p = some (exactKey deps.lib p.identity.orgID canon) := by
          simp [cacheKey, cacheable, canonical]
        refine Keeps.ask own ?_
        intro found
        rcases found with err | (- | cached)
        · exact checkSemantic_keeps (.inr own)
        · exact checkSemantic_keeps (.inr own)
        · exact keeps_pure ⟨.inr own, nofun⟩
  · exact checkSemantic_keeps (.inl rfl)

theorem storeInCaches_keeps {lookup : CacheLookup} (fits : lookup.Fits deps p)
    (resp : CanonicalResponse) :
    Keeps deps r p anything (storeInCaches deps lookup resp p.ttlOverride) := by
  unfold storeInCaches
  split
  · exact keeps_pure trivial
  · rename_i positive
    have timed : TimedBy p p.ttlOverride := by
      refine ⟨rfl, ?_⟩
      intro d same
      simpa [same] using positive
    have tier1 : Keeps deps r p anything (storeExact deps lookup resp p.ttlOverride) := by
      unfold storeExact
      split
      · rename_i keyed
        exact keeps_perform ⟨fits.key.resolve_left keyed.1, timed⟩
      · exact keeps_pure trivial
    refine tier1.bind ?_
    intro _ _
    unfold storeSemantic
    split
    · rename_i eligible
      exact keeps_perform ⟨fits.query eligible, timed⟩
    · exact keeps_pure trivial

theorem finishCacheHit_keeps (tier : CacheTier) (cached : CanonicalResponse) :
    Keeps deps r p anything (finishCacheHit deps r p.identity tier cached start) := by
  refine Keeps.after (since_private _) fun elapsed => ?_
  exact Keeps.row ⟨rfl, rfl, rfl, rfl, .inr ⟨⟨tier, rfl⟩, rfl, rfl, rfl⟩⟩ (keeps_pure trivial)

theorem handleStreamError_keeps (s : StreamState) (failure : StreamError) :
    Keeps deps r p anything (handleStreamError deps r (afterReserve deps p start) s failure) := by
  unfold handleStreamError
  split
  · refine Keeps.ask rfl fun _ => Keeps.after ?_ fun _ => keeps_pure trivial
    exact (reportEngineError_within _ _ _).mono fun _ => Op.isReport.private
  · refine Keeps.ask rfl fun _ => Keeps.after
      ((writeSSEEvent_within _ _).mono fun _ => Op.isHttp.private) fun _ => Keeps.after
      ((flushIf_within _).mono fun _ => Op.isHttp.private) fun _ => Keeps.after
      (since_private _) fun _ => ?_
    exact Keeps.row ⟨rfl, rfl, rfl, rfl, .inl ⟨rfl, rfl⟩⟩ (keeps_pure trivial)

theorem finishStream_keeps {lookup : CacheLookup} (fits : lookup.Fits deps p) (ctx : StreamContext)
    (s : StreamState) (result : StreamResult) :
    Keeps deps r p anything
      (finishStream deps r (afterReserve deps p start) ctx lookup s result) := by
  refine Keeps.after ((write_within _).mono fun _ => Op.isHttp.private) fun _ => Keeps.after
    ((flushIf_within _).mono fun _ => Op.isHttp.private) fun _ =>
    Keeps.ask rfl fun _ => Keeps.after (since_private _) fun _ => ?_
  refine Keeps.row ⟨rfl, rfl, rfl, rfl, .inl ⟨rfl, rfl⟩⟩ ?_
  exact (storeInCaches_keeps fits _).bind fun _ _ => keeps_pure trivial

theorem finishCompletion_keeps {lookup : CacheLookup} (fits : lookup.Fits deps p)
    (result : Result) :
    Keeps deps r p anything
      (finishCompletion deps r (afterReserve deps p start) lookup result) := by
  unfold finishCompletion
  split
  · exact keeps_pure trivial
  · refine Keeps.after ((writeCompletion_within _ _ _ _).mono fun _ => Op.isHttp.private) fun _ =>
      (storeInCaches_keeps fits _).bind fun _ _ => Keeps.ask rfl fun _ =>
      Keeps.after (since_private _) fun _ => ?_
    exact Keeps.row ⟨rfl, rfl, rfl, rfl, .inl ⟨rfl, rfl⟩⟩ (keeps_pure trivial)

theorem handleStreamingChatCompletion_keeps :
    Keeps deps r p anything
      (handleStreamingChatCompletion deps r (afterReserve deps p start)) := by
  refine Keeps.bind (checkCaches_keeps (p := p)) ?_
  rintro ⟨hit, found⟩ fits
  cases hit with
  | some hit =>
      exact Keeps.ask rfl fun _ => Keeps.after
        ((writeCachedStream_within _ _ _).mono fun _ => Op.isReplay.private) fun _ =>
        finishCacheHit_keeps _ _
  | none =>
      refine Keeps.after (.perform trivial) fun _ => Keeps.after (.perform trivial) fun _ =>
        Keeps.after ((Within.handle (relay_within _ _) _ _).mono fun _ => Op.isRelay.private) ?_
      rintro ⟨streamed, s⟩
      rcases streamed with - | failure | result
      · exact keeps_pure trivial
      · exact handleStreamError_keeps _ _
      · exact finishStream_keeps fits _ _ _

theorem completeChat_keeps :
    Keeps deps r p anything (completeChat deps r (afterReserve deps p start)) := by
  refine Keeps.bind (checkCaches_keeps (p := p)) ?_
  rintro ⟨hit, found⟩ fits
  cases hit with
  | some hit =>
      exact Keeps.ask rfl fun _ => Keeps.after
        ((writeCachedResponse_within _ _).mono fun _ => Op.isHttp.private) fun _ =>
        finishCacheHit_keeps _ _
  | none =>
      have each : ∀ s o, Within Op.isPrivate (direct s o) :=
        fun s o => .bind (.perform trivial) fun _ => .pure _
      refine Keeps.after (Within.handle each _ _) ?_
      rintro ⟨executed, s⟩
      rcases executed with - | failure | result
      · exact keeps_pure trivial
      · refine Keeps.ask rfl fun _ => Keeps.after ?_ fun _ => keeps_pure trivial
        exact (reportEngineError_within _ _ _).mono fun _ => Op.isReport.private
      · exact finishCompletion_keeps fits _

theorem Keeps.permitted {q : ServerM α} {post : α → Prop} (ready : prepare deps r = .ok p)
    (h : Keeps deps r p post q) :
    q.Follows (allowing (Op.Permitted deps r)) (fun _ _ => True) () := by
  induction q with
  | pure a => trivial
  | request op next ih =>
      intro reply
      exact ⟨.inr ⟨p, ready, (h reply).1⟩, fun _ => ih reply ((h reply).2 ())⟩

theorem permitted_private {q : ServerM α} (h : Within Op.isPrivate q) :
    q.Follows (allowing (Op.Permitted deps r)) (fun _ _ => True) () :=
  Follows.of_within (I := fun _ => True) h
    (fun _ _ _ alone _ => ⟨.inl alone, fun _ => trivial⟩) trivial

end Handlers

/-- A handler asks nothing of what requests share but in the name of its own request. -/
theorem handleChatCompletions_permitted (deps : ChatDeps) (r : Request) :
    (handleChatCompletions deps r).Follows (allowing (Op.Permitted deps r)) (fun _ _ => True) () := by
  have first : Within Op.isPrivate (perform .now) := .perform trivial
  refine (permitted_private first).bind fun start _ _ => ?_
  simp only
  cases ready : prepare deps r with
  | error refusal =>
      refine permitted_private ?_
      exact ((writeJSONError_within _ _ _).mono fun _ => Op.isHttp.private).bind fun _ => .pure _
  | ok p =>
      suffices kept : Keeps deps r p anything _ from kept.permitted ready
      refine Keeps.ask rfl ?_
      intro decided
      cases decided with
      | error err =>
          refine keeps_private ?_
          exact ((writeJSONError_within _ _ _).mono fun _ => Op.isHttp.private).bind
            fun _ => .pure _
      | ok decision =>
          simp only
          split
          · refine keeps_private ?_
            exact ((writeRateLimitRejection_within _ _).mono fun _ => Op.isHttp.private).bind
              fun _ => .pure _
          · split
            · exact handleStreamingChatCompletion_keeps
            · exact completeChat_keeps

/-- Whatever a request has on record, it was permitted to do. -/
theorem Recorded.permitted {S T : Type} {deps : ChatDeps} {r : Request}
    {pool : RecordPool Op Op.Reply Ended S T} {entry : T × Event Op Op.Reply}
    (h : Recorded (handleChatCompletions deps) pool r entry) : entry.2.1.Permitted deps r := by
  obtain ⟨process, -, serves, member⟩ := h
  have allowed := (serves.allowed (handleChatCompletions_permitted deps r)).1
  exact allowed entry.2 (List.mem_map.mpr ⟨entry, member, rfl⟩)

end Gateway.Server
