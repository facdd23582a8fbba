import InferenceGateway.Auth.Lifecycle
import InferenceGateway.Interaction.Refinement
import InferenceGateway.Redis.Keys
import InferenceGateway.Server.Hits

/-! The whole gateway over one Redis: chat requests behind the bearer check, the issuing and
revoking of keys and cache purges, interleaved operation by operation. The identity cache, the
exact cache and the limiter share one client; nothing any of them does shows in another. -/
namespace Gateway.Server
open Gateway.Providers
open Gateway.Auth (KeyOp KeyM)
open Gateway.Exact (RedisOp tenantStem purgeTenant purgeKeys marshalResponse unmarshalResponse)
open Gateway.RateLimit (Fate Limiter bucketKey)
open Gateway.Redis (House Keys Strings seconds)
open Interaction hiding Program.perform
open Interaction.Program hiding pure perform

inductive GatewayOp where
  | keys (o : KeyOp)
  | server (o : Op)
  | redis (o : RedisOp)

@[reducible] def GatewayOp.Reply : GatewayOp → Type
  | .keys o => o.Reply
  | .server o => o.Reply
  | .redis o => o.Reply

abbrev GatewayM := Program GatewayOp GatewayOp.Reply

def AdminOp.wide : AdminOp → GatewayOp
  | .server o => .server o
  | .redis o => .redis o

def AdminOp.wideReply : (o : AdminOp) → o.wide.Reply ≃ o.Reply
  | .server _ => .refl _
  | .redis _ => .refl _

def overAuth {α : Type} (p : KeyM α) : GatewayM α := p.lift GatewayOp.keys fun _ => .refl _
def overServer {α : Type} (p : ServerM α) : GatewayM α := p.lift GatewayOp.server fun _ => .refl _
def overAdmin {α : Type} (p : AdminM α) : GatewayM α := p.lift AdminOp.wide AdminOp.wideReply

/-- What the process is built from. -/
structure Installation where
  auth : Auth.Deployment
  deps : ChatDeps
  store : Exact.Store
  limiter : Limiter

/-- The chat route: withBearerAuth around the handler. -/
def Installation.chat (i : Installation) (authorization : String) (r : Request) : GatewayM Ended := do
  let gate ← overAuth (Auth.overKeys (Auth.withBearerAuth i.auth.resolver authorization))
  match gate with
  | .rejected status message => do
      overServer (writeJSONError r status message)
      pure .returned
  | .admitted id => overServer (handleChatCompletions i.deps { r with identity := some id })

inductive Errand where
  | chat (authorization : String) (r : Request)
  | issue (body : Except String Auth.IssueKeyRequest)
  | revoke (pathID : String)
  | purge (r : PurgeRequest)

inductive Conclusion where
  | ended (how : Ended)
  | issued (answer : Auth.IssueAnswer)
  | answered (answer : Auth.Answer)

def Errand.program (i : Installation) : Errand → GatewayM Conclusion
  | .chat authorization r => do
      let how ← i.chat authorization r
      pure (.ended how)
  | .issue body => do
      let answer ← overAuth (Auth.handleIssueKey i.auth.resolver.hashKey i.auth.parse body)
      pure (.issued answer)
  | .revoke pathID => do
      let answer ← overAuth (Auth.overKeys (Auth.handleRevokeKey i.auth.parse pathID))
      pure (.answered answer)
  | .purge r => do
      let how ← overAdmin (handlePurgeCache i.deps.cache r)
      pure (.ended how)

/-- One Redis and one Postgres. -/
structure Site where
  clock : Int
  keys : Keys
  db : Auth.Database

/-- What a step brings with it, besides what the key operations need: the keys that were lost
since the last one, the keys a SCAN comes by and the error it ends in, and the answers of
everything that is neither Redis nor Postgres. -/
structure Moment extends Auth.Lifecycle.Turn where
  lost : String → Bool
  visited : List String
  ended : Option String
  answer : (op : Op) → op.Reply

def yields (pattern key : String) : Bool :=
  Glob.accepts (Utf8.encode pattern.toList) (Utf8.encode key.toList)

/-- redisCache.Get on the answer of GET. -/
def readIdentity : Except String (Option String) → Except String String
  | .error err => .error err
  | .ok none => .error "auth: cache miss"
  | .ok (some raw) => .ok raw

/-- Store.Get on the answer of GET. -/
def readResponse : Except String (Option String) → Except String (Option CanonicalResponse)
  | .error err => .error ("exact: get: " ++ err)
  | .ok none => .ok none
  | .ok (some raw) =>
      match unmarshalResponse raw with
      | some resp => .ok (some resp)
      | none => .error "exact: decode cached response"

namespace Site

def now (w : Site) (t : Moment) : Int := max w.clock t.now

def tick (w : Site) (t : Moment) (keys : Keys) : Site := { w with clock := w.now t, keys }

def answer (i : Installation) (w : Site) (t : Moment) : (op : GatewayOp) → op.Reply × Site
  | .keys (.auth (.get key)) => (readIdentity (w.keys.get t.fate (w.now t) key), w.tick t w.keys)
  | .keys (.auth (.set key value ttl)) =>
      (t.fate.err, w.tick t (w.keys.set t.fate (w.now t) key value ttl))
  | .keys (.auth (.del key)) => (t.fate.err, w.tick t (w.keys.del t.fate key))
  | .keys op =>
      let served := Auth.Lifecycle.World.serve ⟨w.clock, fun _ => none, w.db⟩ t.toTurn op
      (served.1, { w.tick t w.keys with db := served.2.db })
  | .server (.cacheGet key) => (readResponse (w.keys.get t.fate (w.now t) key), w.tick t w.keys)
  | .server (.cacheSet key resp ttlOverride) =>
      (t.fate.err.map ("exact: set: " ++ ·),
        w.tick t (w.keys.set t.fate (w.now t) key (marshalResponse resp) (i.store.lifetime ttlOverride)))
  | .server (.reserve scopes cost) =>
      let ran := w.keys.reserve i.limiter t.fate scopes cost (seconds (w.now t))
      (ran.1, w.tick t ran.2)
  | .server (.adjust scopes delta) =>
      let ran := w.keys.adjust t.fate scopes delta (seconds (w.now t))
      (ran.1, w.tick t ran.2)
  | .server op => (t.answer op, w.tick t w.keys)
  | .redis (.scan pattern) =>
      ((t.visited.filter fun key => w.keys.there (w.now t) key && yields pattern key, t.ended),
        w.tick t w.keys)
  | .redis (.del key) => (t.fate.err, w.tick t (w.keys.del t.fate key))

def serve (i : Installation) (w : Site) (t : Moment) (op : GatewayOp) : op.Reply × Site :=
  { w with keys := w.keys.lose t.lost }.answer i t op

end Site

/-- The same with a Redis for each: the world of the key operations, the exact cache's store and
the limiter's buckets. -/
structure Apart where
  identities : Auth.Lifecycle.World
  responses : Strings
  buckets : RateLimit.Redis

namespace Apart

def now (w : Apart) (t : Moment) : Int := w.identities.now t.toTurn

def tick (w : Apart) (t : Moment) : Apart :=
  { w with identities := { w.identities with clock := w.now t } }

def answer (i : Installation) (w : Apart) (t : Moment) : (op : GatewayOp) → op.Reply × Apart
  | .keys op =>
      let served := w.identities.serve t.toTurn op
      (served.1, { w with identities := served.2 })
  | .server (.cacheGet key) => (i.store.get t.fate w.responses (w.now t) key, w.tick t)
  | .server (.cacheSet key resp ttlOverride) =>
      let stored := i.store.set t.fate w.responses (w.now t) key resp ttlOverride
      (stored.1, { w.tick t with responses := stored.2 })
  | .server (.reserve scopes cost) =>
      let ran := i.limiter.reserve t.fate w.buckets scopes cost (seconds (w.now t))
      (ran.1, { w.tick t with buckets := ran.2 })
  | .server (.adjust scopes delta) =>
      let ran := i.limiter.adjust t.fate w.buckets scopes delta (seconds (w.now t))
      (ran.1, { w.tick t with buckets := ran.2 })
  | .server op => (t.answer op, w.tick t)
  | .redis (.scan pattern) =>
      ((t.visited.filter fun key => (w.responses.live (w.now t) key).isSome && yields pattern key,
        t.ended), w.tick t)
  | .redis (.del key) => (t.fate.err, { w.tick t with responses := w.responses.del t.fate key })

def lose (w : Apart) (lost : String → Bool) : Apart where
  identities := { w.identities with
    cache := fun key => if lost key then none else w.identities.cache key }
  responses key := if lost key then none else w.responses key
  buckets key := if lost key then none else w.buckets key

def serve (i : Installation) (w : Apart) (t : Moment) (op : GatewayOp) : op.Reply × Apart :=
  (w.lose t.lost).answer i t op

end Apart

/-- Taken apart by the stems of the keys. -/
def Site.apart (w : Site) : Apart where
  identities := ⟨w.clock, w.keys.room .identities, w.db⟩
  responses := w.keys.room .responses
  buckets := w.keys.buckets

/-- Operations on keys of the asker's own house. -/
def GatewayOp.Housed : GatewayOp → Prop
  | .keys (.auth (.get key)) | .keys (.auth (.set key _ _)) | .keys (.auth (.del key)) =>
      House.identities.has key = true
  | .server (.cacheGet key) | .server (.cacheSet key _ _) | .redis (.del key) =>
      House.responses.has key = true
  | .redis (.scan pattern) => ∃ tenant, pattern = tenantStem tenant ++ "*"
  | _ => True

/-- A SCAN yielded keys of the exact cache only. -/
def faithful : Event GatewayOp GatewayOp.Reply → Bool
  | ⟨.redis (.scan _), yielded⟩ => yielded.1.all House.responses.has
  | _ => true

/-- As long as every SCAN was faithful, a program stays in its house. -/
def housekeeping {S : Type} : Protocol GatewayOp GatewayOp.Reply S Bool where
  advance _ honest ev := honest && faithful ev
  legal honest ev := honest = true → ev.1.Housed

abbrev GatewaySystem (S : Type) := System GatewayOp GatewayOp.Reply Bool Conclusion S Errand Moment
abbrev GatewayPool (S : Type) := Pool GatewayOp GatewayOp.Reply Bool Conclusion S

def Installation.system {S : Type} (i : Installation)
    (serve : S → Moment → (op : GatewayOp) → op.Reply × S) : GatewaySystem S where
  program := Errand.program i
  idle := true
  serve := serve
  protocol := housekeeping

section Programs
variable {S α : Type} {i : Installation} {honest : Bool}

theorem housed_follows {p : GatewayM α} (h : p.Within GatewayOp.Housed) :
    p.Follows (housekeeping (S := S)) (fun _ _ => True) honest :=
  Follows.of_within (I := fun _ => True) h (fun _ _ _ housed _ => ⟨fun _ => housed, fun _ => trivial⟩)
    trivial

theorem cacheKey_housed (hash : Auth.Hash) : House.identities.has (Auth.cacheKey hash) = true :=
  House.has_append .identities _

theorem exactKey_housed (lib : Library) (tenantID canon : String) :
    House.responses.has (exactKey lib tenantID canon) = true := by
  rw [exactKey, String.append_assoc, String.append_assoc]
  exact House.has_append .responses _

theorem overKeys_within {p : Auth.AuthM α} (h : p.Within fun o => (GatewayOp.keys (.auth o)).Housed) :
    (overAuth (Auth.overKeys p)).Within GatewayOp.Housed := (h.lift (F := KeyOp)).lift

theorem resolve_within (c : Auth.CachingResolver) (key : String) :
    (c.resolve key).Within fun o => (GatewayOp.keys (.auth o)).Housed := by
  have fromStore : (c.resolveFromStore (c.hashKey key)).Within
      fun o => (GatewayOp.keys (.auth o)).Housed := by
    refine .perform_bind trivial fun found => ?_
    rcases found with err | ⟨id, revoked⟩
    · exact .pure _
    · exact .perform_bind (cacheKey_housed _) fun _ => .pure _
  refine .perform_bind (cacheKey_housed _) fun raw => ?_
  cases raw with
  | error err => exact fromStore
  | ok raw =>
      simp only
      split
      · exact .pure _
      · exact fromStore

theorem withBearerAuth_within (c : Auth.CachingResolver) (header : String) :
    (Auth.withBearerAuth c header).Within fun o => (GatewayOp.keys (.auth o)).Housed := by
  refine Within.bind ?_ fun _ => .pure _
  unfold Auth.resolveBearer
  split
  · exact .pure _
  · exact (resolve_within c _).bind fun _ => .pure _

theorem handleRevokeKey_within (parse : String → Option String) (pathID : String) :
    (Auth.handleRevokeKey parse pathID).Within fun o => (GatewayOp.keys (.auth o)).Housed := by
  unfold Auth.handleRevokeKey
  split
  · exact .pure _
  · refine .perform_bind trivial fun revoked => ?_
    rcases revoked with err | hash
    · cases err <;> exact .pure _
    · exact .perform_bind (cacheKey_housed _) fun _ => .pure _

theorem handleIssueKey_within (hashKey : String → Auth.Hash) (parse : String → Option String)
    (body : Except String Auth.IssueKeyRequest) :
    (Auth.handleIssueKey hashKey parse body).Within fun o => (GatewayOp.keys o).Housed := by
  unfold Auth.handleIssueKey
  split
  · exact .pure _
  · split
    · exact .pure _
    · refine Within.bind ?_ fun issued => ?_
      · refine Within.bind ?_ fun generated => ?_
        · refine .perform_bind trivial fun raw => ?_
          cases raw <;> exact .pure _
        · cases generated with
          | error err => exact .pure _
          | ok plaintext =>
              refine .perform_bind trivial fun row => ?_
              cases row <;> exact .pure _
      · cases issued <;> exact .pure _

theorem Op.Permitted.housed {deps : ChatDeps} {r : Request} {o : Op} (h : o.Permitted deps r) :
    (GatewayOp.server o).Housed := by
  have own : ∀ p key, cacheKey deps p = some key → House.responses.has key = true := by
    intro p key same
    unfold cacheKey at same
    split at same
    · obtain ⟨canon, -, rfl⟩ := Option.map_eq_some_iff.mp same
      exact exactKey_housed _ _ _
    · cases same
  cases o with
  | cacheGet key =>
      obtain alone | ⟨p, -, mine⟩ := h
      · cases alone
      · exact own p key mine
  | cacheSet key resp ttlOverride =>
      obtain alone | ⟨p, -, mine, -⟩ := h
      · cases alone
      · exact own p key mine
  | _ => trivial

theorem overServer_within {p : ServerM α} {final : α → Unit → Prop} {deps : ChatDeps} {r : Request}
    (h : p.Follows (allowing (Op.Permitted deps r)) final ()) :
    (overServer p).Within GatewayOp.Housed :=
  ((Within.of_allowing h).mono fun _ => Op.Permitted.housed).lift

theorem private_within {p : ServerM α} (h : p.Within Op.isPrivate) :
    (p.Within fun o => (GatewayOp.server o).Housed) := by
  refine h.mono fun o alone => ?_
  cases o with
  | cacheGet key => cases alone
  | cacheSet key resp ttlOverride => cases alone
  | _ => trivial

theorem writeJSONError_housed (r : Request) (status : Int) (message : String) :
    (writeJSONError r status message).Within fun o => (GatewayOp.server o).Housed :=
  private_within ((writeJSONError_within r status message).mono fun _ => Op.isHttp.private)

theorem chat_within (authorization : String) (r : Request) :
    (i.chat authorization r).Within GatewayOp.Housed := by
  refine (overKeys_within (withBearerAuth_within _ _)).bind fun gate => ?_
  cases gate with
  | rejected status message =>
      exact (writeJSONError_housed r status message).lift.bind fun _ => .pure _
  | admitted id => exact overServer_within (handleChatCompletions_permitted _ _)

/-- How a purge keeps house, seen by its own operations. -/
abbrev purging (S : Type) : Protocol RedisOp RedisOp.Reply S Bool :=
  narrow AdminOp.redis (fun _ => .refl _) (narrow AdminOp.wide AdminOp.wideReply housekeeping)

theorem purgeKeys_follows (ended : Option String) (keys : List String) (deleted : Nat)
    (own : honest = true → ∀ key ∈ keys, House.responses.has key = true) :
    (purgeKeys ended keys deleted).Follows (purging S) (fun _ _ => True) honest := by
  induction keys generalizing deleted honest with
  | nil => trivial
  | cons key rest ih =>
      intro failed
      refine ⟨fun still => own still key List.mem_cons_self, fun _ => ?_⟩
      cases failed with
      | some err => trivial
      | none =>
          refine ih _ ?_
          intro still other member
          exact own (Bool.and_eq_true_iff.mp still).1 other (List.mem_cons_of_mem _ member)

theorem purgeTenant_follows (tenant : String) :
    (purgeTenant tenant).Follows (purging S) (fun _ _ => True) honest := by
  intro scanned
  refine ⟨fun _ => ⟨tenant, rfl⟩, fun _ => purgeKeys_follows _ _ _ ?_⟩
  intro still
  exact List.all_eq_true.mp (Bool.and_eq_true_iff.mp still).2

theorem inServer_within {p : ServerM α} (h : p.Within Op.isPrivate) :
    (inServer p).Within fun o => o.wide.Housed := Within.lift (private_within h)

theorem writePurged_within (deleted : Nat) : (writePurged deleted).Within Op.isPrivate :=
  .perform_bind trivial fun _ => .perform_bind trivial fun _ => .perform_bind trivial fun _ => .pure _

theorem admin_follows {p : AdminM α} (h : p.Within fun o => o.wide.Housed) :
    p.Follows (narrow AdminOp.wide AdminOp.wideReply (housekeeping (S := S))) (fun _ _ => True)
      honest :=
  Follows.of_within (I := fun _ => True) h (fun _ _ _ housed _ => ⟨fun _ => housed, fun _ => trivial⟩)
    trivial

theorem handlePurgeCache_follows (purger : Bool) (r : PurgeRequest) :
    (overAdmin (handlePurgeCache purger r)).Follows (housekeeping (S := S)) (fun _ _ => True)
      honest := by
  have refuses : ∀ status message, (inServer (writeJSONError r.base status message) >>=
      fun _ => (pure Ended.returned : AdminM Ended)).Within fun o => o.wide.Housed := by
    intro status message
    exact (inServer_within ((writeJSONError_within _ _ _).mono fun _ => Op.isHttp.private)).bind
      fun _ => .pure _
  apply Follows.of_narrow
  unfold handlePurgeCache
  split
  · exact admin_follows (refuses _ _)
  · split
    · exact admin_follows (refuses _ _)
    · split
      · trivial
      · refine (purgeTenant_follows _).of_narrow.bind fun purged _ _ => ?_
        cases purged.2 with
        | some err => exact admin_follows (refuses _ _)
        | none =>
            exact admin_follows ((inServer_within (writePurged_within _)).bind fun _ => .pure _)

/-- Every program keeps to its house. -/
theorem errand_follows (errand : Errand) :
    (Errand.program i errand).Follows (housekeeping (S := S)) (fun _ _ => True) honest := by
  cases errand with
  | chat authorization r =>
      exact housed_follows ((chat_within authorization r).bind fun _ => .pure _)
  | issue body =>
      exact housed_follows ((handleIssueKey_within _ _ body).lift.bind fun _ => .pure _)
  | revoke pathID =>
      exact housed_follows ((overKeys_within (handleRevokeKey_within _ pathID)).bind fun _ => .pure _)
  | purge r => exact (handlePurgeCache_follows _ r).bind fun _ _ _ => trivial

end Programs

section Stores
variable {i : Installation} {w : Site} {t : Moment} {op : GatewayOp}

theorem readResponse_get (store : Exact.Store) (fate : Fate) (strings : Strings) (now : Int) (key : String) :
    readResponse (fate.err.elim (.ok (strings.live now key)) .error) =
      store.get fate strings now key := by
  unfold Exact.Store.get
  cases fate.err with
  | some err => rfl
  | none => cases strings.live now key <;> rfl

theorem readIdentity_get (world : Auth.Lifecycle.World) (turn : Auth.Lifecycle.Turn) (key : String) :
    readIdentity (turn.fate.err.elim (.ok (world.cache.live (world.now turn) key)) .error) =
      world.get turn key := by
  unfold Auth.Lifecycle.World.get
  cases turn.fate.err with
  | some err => rfl
  | none => cases world.cache.live (world.now turn) key <;> rfl

/-- What SCAN yields for a purge is in the house of responses. -/
theorem yields_housed {tenant key : String} (h : yields (tenantStem tenant ++ "*") key = true) :
    House.responses.has key = true := House.has_iff.mpr (lead_of_globMatches h)

section Views
variable {keys : Keys} {texts : Strings} {buckets : RateLimit.Redis}

theorem Site.tick_identities (h : Keys.Altered w.keys keys .identities texts) :
    (w.tick t keys).apart = { w.apart with identities := ⟨w.now t, texts, w.db⟩ } := by
  simp [Site.apart, Site.tick, h.own, h.others .responses nofun, h.buckets]

theorem Site.tick_responses (h : Keys.Altered w.keys keys .responses texts) :
    (w.tick t keys).apart = { w.apart.tick t with responses := texts } := by
  simp only [Site.apart, Site.tick, Apart.tick, h.own, h.others .identities nofun, h.buckets]
  rfl

theorem Site.tick_buckets (h : Keys.Metered w.keys keys buckets) :
    (w.tick t keys).apart = { w.apart.tick t with buckets := buckets } := by
  simp only [Site.apart, Site.tick, Apart.tick, h.own, h.others]
  rfl

end Views

/-- A key of none of the three. -/
def Foreign (key : String) : Prop :=
  (∀ house, House.has house key = false) ∧ ∀ scope id, key ≠ bucketKey scope id

theorem foreign_of_altered {before after : Keys} {house : House} {texts : Strings}
    (h : Keys.Altered before after house texts) : ∀ key, Foreign key → after key = before key :=
  fun key foreign => h.elsewhere key (foreign.1 _)

theorem foreign_of_metered {before after : Keys} {buckets : RateLimit.Redis}
    (h : Keys.Metered before after buckets) : ∀ key, Foreign key → after key = before key :=
  fun key foreign => h.elsewhere key foreign.2

/-- An operation is answered as with a Redis for each; it leaves the keys in order, and those
that are not the gateway's alone. -/
structure Site.Answered (i : Installation) (w : Site) (t : Moment) (op : GatewayOp) : Prop where
  apart : w.apart.answer i t op = ((w.answer i t op).1, (w.answer i t op).2.apart)
  sorted : (w.answer i t op).2.keys.Sorted
  elsewhere : ∀ key, Foreign key → (w.answer i t op).2.keys key = w.keys key

theorem Site.answered_keys (sorted : w.keys.Sorted) {o : KeyOp} (housed : (GatewayOp.keys o).Housed) :
    w.Answered i t (.keys o) := by
  cases o with
  | auth o =>
      cases o with
      | get key =>
          refine ⟨Prod.ext ?_ rfl, sorted, fun _ _ => rfl⟩
          simp only [Site.answer, sorted.get housed]
          exact (readIdentity_get w.apart.identities t.toTurn key).symm
      | set key value ttl =>
          have altered : Keys.Altered w.keys (w.keys.set t.fate (w.now t) key value ttl) .identities _ :=
            sorted.set housed
          exact ⟨Prod.ext rfl (Site.tick_identities altered).symm, altered.sorted, foreign_of_altered altered⟩
      | del key =>
          have altered : Keys.Altered w.keys (w.keys.del t.fate key) .identities _ := sorted.del housed
          exact ⟨Prod.ext rfl (Site.tick_identities altered).symm, altered.sorted, foreign_of_altered altered⟩
      | resolve hash => exact ⟨rfl, sorted, fun _ _ => rfl⟩
      | revokeKey id => exact ⟨rfl, sorted, fun _ _ => rfl⟩
  | randRead n => exact ⟨rfl, sorted, fun _ _ => rfl⟩
  | insertKey key => exact ⟨rfl, sorted, fun _ _ => rfl⟩

theorem Site.answered_server (sorted : w.keys.Sorted) {o : Op} (housed : (GatewayOp.server o).Housed) :
    w.Answered i t (.server o) := by
  cases o with
  | cacheGet key =>
      refine ⟨Prod.ext ?_ rfl, sorted, fun _ _ => rfl⟩
      simp only [Site.answer, sorted.get housed]
      exact (readResponse_get i.store _ _ _ _).symm
  | cacheSet key resp ttlOverride =>
      have altered : Keys.Altered w.keys (w.keys.set t.fate (w.now t) key (marshalResponse resp)
          (i.store.lifetime ttlOverride)) .responses _ := sorted.set housed
      exact ⟨Prod.ext rfl (Site.tick_responses altered).symm, altered.sorted, foreign_of_altered altered⟩
  | reserve scopes cost =>
      obtain ⟨reply, metered⟩ := sorted.reserve i.limiter t.fate scopes cost (seconds (w.now t))
      exact ⟨Prod.ext reply.symm (Site.tick_buckets metered).symm, metered.sorted, foreign_of_metered metered⟩
  | adjust scopes delta =>
      obtain ⟨reply, metered⟩ := sorted.adjust i.limiter t.fate scopes delta (seconds (w.now t))
      exact ⟨Prod.ext reply.symm (Site.tick_buckets metered).symm, metered.sorted, foreign_of_metered metered⟩
  | _ => exact ⟨rfl, sorted, fun _ _ => rfl⟩

theorem Site.answered_redis (sorted : w.keys.Sorted) {o : RedisOp} (housed : (GatewayOp.redis o).Housed) :
    w.Answered i t (.redis o) := by
  cases o with
  | scan pattern =>
      obtain ⟨tenant, rfl⟩ := housed
      have same : ∀ key, ((w.apart.responses.live (w.now t) key).isSome &&
          yields (tenantStem tenant ++ "*") key) =
          (w.keys.there (w.now t) key && yields (tenantStem tenant ++ "*") key) := by
        intro key
        cases matched : yields (tenantStem tenant ++ "*") key with
        | false => simp
        | true =>
            rw [sorted.there (yields_housed matched)]
            rfl
      refine ⟨Prod.ext (Prod.ext ?_ rfl) rfl, sorted, fun _ _ => rfl⟩
      exact List.filter_congr fun key _ => same key
  | del key =>
      have altered : Keys.Altered w.keys (w.keys.del t.fate key) .responses _ := sorted.del housed
      exact ⟨Prod.ext rfl (Site.tick_responses altered).symm, altered.sorted, foreign_of_altered altered⟩

theorem Site.answered (sorted : w.keys.Sorted) (housed : op.Housed) : w.Answered i t op := by
  cases op with
  | keys o => exact Site.answered_keys sorted housed
  | server o => exact Site.answered_server sorted housed
  | redis o => exact Site.answered_redis sorted housed

theorem Site.lose_apart (w : Site) (lost : String → Bool) :
    ({ w with keys := w.keys.lose lost } : Site).apart = w.apart.lose lost := by
  simp only [Site.apart, Apart.lose, Keys.lose_room, Keys.lose_buckets]

theorem Site.serve_apart (sorted : w.keys.Sorted) (housed : op.Housed) :
    w.apart.serve i t op = ((w.serve i t op).1, (w.serve i t op).2.apart) := by
  unfold Apart.serve Site.serve
  rw [← Site.lose_apart]
  exact (Site.answered (sorted.lose _) housed).apart

theorem Site.serve_sorted (sorted : w.keys.Sorted) (housed : op.Housed) :
    (w.serve i t op).2.keys.Sorted := (Site.answered (sorted.lose _) housed).sorted

theorem Site.serve_foreign (sorted : w.keys.Sorted) (housed : op.Housed) {key : String}
    (foreign : Foreign key) :
    (w.serve i t op).2.keys key = w.keys key ∨ (w.serve i t op).2.keys key = none := by
  have answered : ({ w with keys := w.keys.lose t.lost } : Site).Answered i t op :=
    Site.answered (sorted.lose _) housed
  rw [Site.serve, answered.elsewhere key foreign]
  by_cases gone : t.lost key = true
  · exact .inr (if_pos gone)
  · exact .inl (if_neg gone)

/-- The SCAN of a housed purge is faithful. -/
theorem Site.serve_faithful (housed : op.Housed) : faithful ⟨op, (w.serve i t op).1⟩ = true := by
  cases op with
  | keys o => rfl
  | server o => rfl
  | redis o =>
      cases o with
      | del key => rfl
      | scan pattern =>
          obtain ⟨tenant, rfl⟩ := housed
          refine List.all_eq_true.mpr fun key member => ?_
          have kept := (List.mem_filter.mp member).2
          exact yields_housed (Bool.and_eq_true_iff.mp kept).2

end Stores

/-- Every process keeps to its house and every SCAN was faithful, so the keys are in order. -/
structure Orderly (i : Installation) (first : Keys) (pool : GatewayPool Site) : Prop where
  disciplined : (i.system (Site.serve i)).Disciplined (fun _ _ => True) pool
  honest : ∀ p ∈ pool.processes, p.state = true
  sorted : pool.shared.keys.Sorted
  foreign : ∀ key, Foreign key → pool.shared.keys key = first key ∨ pool.shared.keys key = none

section Runs
variable {i : Installation} {first : Keys} {pool next : GatewayPool Site} {move : Move Errand Moment}

/-- What a process asks for is in its house. -/
theorem Orderly.housed (h : Orderly i first pool) {n : Nat} {op : GatewayOp}
    {continue_ : op.Reply → GatewayM Conclusion} {honest : Bool}
    (found : pool.processes[n]? = some ⟨.request op continue_, honest⟩) (reply : op.Reply) :
    op.Housed := by
  have member := List.mem_of_getElem? found
  have follows : Follows housekeeping (fun _ _ => True) (.request op continue_) honest :=
    h.disciplined _ member
  exact (follows reply).1 (h.honest _ member)

theorem Orderly.step (h : Orderly i first pool)
    (moved : (i.system (Site.serve i)).step pool move = some next) : Orderly i first next := by
  have disciplined := h.disciplined.step (fun errand => errand_follows errand) moved
  cases move with
  | start errand =>
      cases moved
      refine ⟨disciplined, ?_, h.sorted, h.foreign⟩
      intro p member
      rcases List.mem_append.mp member with old | new
      · exact h.honest p old
      · rw [List.mem_singleton.mp new]
        rfl
  | act n t =>
      obtain ⟨op, continue_, honest, found, rfl⟩ := System.act_cases moved
      have housed := h.housed found (pool.shared.serve i t op).1
      refine ⟨disciplined, ?_, Site.serve_sorted h.sorted housed, ?_⟩
      · intro p member
        rcases List.mem_or_eq_of_mem_set member with old | rfl
        · exact h.honest p old
        · have still := h.honest _ (List.mem_of_getElem? found)
          exact Bool.and_eq_true_iff.mpr ⟨still, Site.serve_faithful housed⟩
      · intro key foreign
        obtain same | gone := Site.serve_foreign (i := i) (t := t) h.sorted housed foreign
        · exact (h.foreign key foreign).imp (same.trans ·) (same.trans ·)
        · exact .inr gone

theorem refines_apart (i : Installation) (first : Keys) :
    (i.system (Site.serve i)).Refines (i.system (Apart.serve i)) Site.apart (Orderly i first) where
  program := rfl
  idle := rfl
  advance _ _ _ := rfl
  kept _ _ _ inv moved := inv.step moved
  serve pool _ t op _ _ inv found :=
    Site.serve_apart inv.sorted (inv.housed found (pool.shared.serve i t op).1)

/-- One Redis is as good as three. However chat requests, the issuing and revoking of keys and
purges interleave, and whatever Redis fails, loses or lets expire, every request is answered
and goes on as it would if the identity cache, the exact cache and the limiter had a Redis
each; what else is kept in this one is never written. -/
theorem one_redis_serves_as_three {start : GatewayPool Site} (fresh : start.processes = [])
    (sorted : start.shared.keys.Sorted)
    (reached : (i.system (Site.serve i)).Reaches (fun _ _ => True) start pool) :
    (i.system (Apart.serve i)).Reaches (fun _ _ => True) (start.view Site.apart)
        (pool.view Site.apart) ∧ pool.shared.keys.Sorted ∧
      ∀ key, Foreign key →
        pool.shared.keys key = start.shared.keys key ∨ pool.shared.keys key = none := by
  have orderly : Orderly i start.shared.keys start := by
    refine ⟨?_, ?_, sorted, fun _ _ => .inl rfl⟩
    · intro p member
      rw [fresh] at member
      cases member
    · intro p member
      rw [fresh] at member
      cases member
  obtain ⟨after, refined⟩ := (refines_apart i start.shared.keys).reaches orderly reached
  exact ⟨refined, after.sorted, after.foreign⟩

end Runs

def installed : Installation := ⟨Auth.Lifecycle.byLength, hashed, ⟨60⟩, ⟨true⟩⟩

/-- Everything goes well, at time 0. -/
def calmly : Moment :=
  { Auth.Lifecycle.turn 0 .answered with
    lost := fun _ => false
    visited := []
    ended := none
    answer := quietly.answer }

def emptyRedis : GatewayPool Site := ⟨⟨0, fun _ => none, Auth.Lifecycle.oneKeyWorld.db⟩, []⟩

/-- A chat request with a key that is not cached yet, from the bearer check to its end. -/
def firstChat : Option (GatewayPool Site) :=
  (installed.system (Site.serve installed)).run (fun _ _ => true) emptyRedis
    (.start (.chat "Bearer abc" { asked hello with identity := none }) ::
      List.replicate 21 (.act 0 calmly))

/-- The text the only entry of the exact cache is under. -/
def helloKey : String := exactKey hashed.lib "acme" ((hashed.lib.canonicalize hello).getD "")

theorem firstChat_serves_as_three :
    ∃ pool, firstChat = some pool ∧ (pool.shared.keys.texts "vk:03").isSome = true ∧
      (pool.shared.keys.buckets "bucket:org:acme").isSome = true ∧
      (pool.shared.keys.texts helloKey).isSome = true ∧
      (installed.system (Apart.serve installed)).Reaches (fun _ _ => True)
        (emptyRedis.view Site.apart) (pool.view Site.apart) := by
  have facts : (firstChat.map fun pool => (pool.shared.keys.texts "vk:03").isSome &&
      (pool.shared.keys.buckets "bucket:org:acme").isSome &&
      (pool.shared.keys.texts helloKey).isSome) = some true := by
    decide +kernel
  obtain ⟨pool, ran, shown⟩ := Option.map_eq_some_iff.mp facts
  simp only [Bool.and_eq_true] at shown
  have empty : emptyRedis.shared.keys.Sorted := ⟨fun _ _ => rfl, fun _ _ _ => rfl⟩
  have reached := (System.Reaches.of_run ran).mono fun _ _ _ => trivial
  have served := one_redis_serves_as_three rfl empty reached
  exact ⟨pool, ran, shown.1.1, shown.1.2, shown.2, served.1⟩
end Gateway.Server
