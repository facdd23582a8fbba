import InferenceGateway.Cache.Keyspace
import InferenceGateway.Cache.Nearest
import InferenceGateway.Server.Reuse

/-! The admin purge and what lookups are answered with after it. Lookups run among the stores,
lookups and expirations of other requests, in the process that answered the purge. -/
namespace Gateway.Server
open Gateway.Providers Gateway.Exact
open Gateway.Semantic (Query Stored History Node Persisted Entry)
open Binary64 (Value)
open Interaction hiding Program.perform
open Interaction.Program hiding pure perform

inductive AdminOp where
  | server (o : Op)
  | redis (o : RedisOp)

@[reducible] def AdminOp.Reply : AdminOp → Type
  | .server o => o.Reply
  | .redis o => o.Reply

abbrev AdminM := Program AdminOp AdminOp.Reply

def inServer {α : Type} (p : ServerM α) : AdminM α := p.lift AdminOp.server fun _ => .refl _
def inRedis {α : Type} (p : RedisM α) : AdminM α := p.lift AdminOp.redis fun _ => .refl _

/-- `body` is the decoded tenant or the decoder's error. -/
structure PurgeRequest where
  body : Except String String
  requestID : String

/-- The request as the shared writers see it. -/
def PurgeRequest.base (r : PurgeRequest) : Request := ⟨.error "", none, r.requestID, false⟩

def purgeCacheResponse (deleted : Nat) : Json.Value := .obj [("deleted", .int deleted)]

def writePurged (deleted : Nat) : ServerM Unit := do
  setHeader "Content-Type" "application/json"
  writeHeader 200
  let _ ← write (encodeLine (purgeCacheResponse deleted))

/-- `purger` says whether the exact cache is configured; without it the call is a nil
dereference. -/
def handlePurgeCache (purger : Bool) (r : PurgeRequest) : AdminM Ended :=
  match r.body with
  | .error err => do
      inServer (writeJSONError r.base 400 ("invalid JSON body: " ++ err))
      pure .returned
  | .ok tenant =>
      if tenant = "" then do
        inServer (writeJSONError r.base 400 "tenant is required")
        pure .returned
      else if !purger then pure .panicked
      else do
        let purged ← inRedis (purgeTenant tenant)
        match purged.2 with
        | some err => do
            inServer (writeJSONError r.base 500 err)
            pure .returned
        | none => do
            inServer (writePurged purged.1)
            pure .returned

def adminCall : Event AdminOp AdminOp.Reply → Option Http.Call
  | ⟨.server (.http call), _⟩ => some call
  | _ => none

/-- The status the client is sent. -/
def answeredStatus (tr : List (Event AdminOp AdminOp.Reply)) : Option Int :=
  (({} : Http.Response).applyAll (tr.filterMap adminCall)).committed.map Prod.fst

/-- The handler's own requests leave Redis to itself. -/
inductive AdminAnswers : Keyspace → Event AdminOp AdminOp.Reply → Keyspace → Prop
  | server {ks ks' : Keyspace} {o : Op} {reply : o.Reply} :
      ks.Fades ks' → AdminAnswers ks ⟨.server o, reply⟩ ks'
  | redis {ks ks' : Keyspace} {o : RedisOp} {reply : o.Reply} :
      Exact.Answers ks ⟨o, reply⟩ ks' → AdminAnswers ks ⟨.redis o, reply⟩ ks'

/-- Both tiers and the clock. `stored` lists what has been stored since the purge. -/
structure Caches where
  exact : Keyspace
  semantic : History
  now : Int
  stored : List CanonicalResponse := []

/-- The handler has answered 200 for the tenant, with no request in flight. -/
structure Purged (tenant : String) (before after : Caches) : Prop where
  answered : ∃ purger requestID tr out,
    Runs (handlePurgeCache purger ⟨.ok tenant, requestID⟩) tr out ∧ answeredStatus tr = some 200 ∧
      Serves AdminAnswers before.exact tr after.exact
  semantic : after.semantic = before.semantic
  later : before.now ≤ after.now
  none_stored : after.stored = []

/-- The text of an org's id. -/
def IsUUID (text : String) : Prop :=
  text.length = 36 ∧ (text.toList.all fun c => c.isDigit || "abcdef-".toList.contains c) = true

theorem IsUUID.verbatim {text : String} (h : IsUUID text) : Verbatim text := by
  rw [Verbatim, List.any_eq_false]
  intro c member special
  have plain := List.all_eq_true.mp h.2 c member
  simp only [List.contains_cons, List.contains_nil, Bool.or_eq_true, beq_iff_eq, Bool.false_eq_true,
    or_false] at special
  rcases special with rfl | rfl | rfl | rfl
  all_goals revert plain; decide

namespace Caches

/-- What happens between the requests of a lookup: stores and lookups of others, snapshots,
expiry in Redis, and time. -/
inductive Move : Caches → Caches → Prop
  | exactSet {c : Caches} (key : String) (resp : CanonicalResponse) :
      Move c { c with exact := c.exact.set key resp, stored := resp :: c.stored }
  | semanticSet {c : Caches} (q : Query) (resp : CanonicalResponse) (ttlOverride : Option Duration)
      {key : String} : key ∉ c.semantic.sets.map Stored.key →
      Move c { c with
        semantic := c.semantic.step (.set q resp ttlOverride key c.now), stored := resp :: c.stored }
  | semanticGet {c : Caches} (q : Query) (proposed : List Node) :
      Move c { c with semantic := c.semantic.step (.get q c.now proposed) }
  | saveToDisk {c : Caches} {persisted : List Persisted} :
      persisted.Perm c.semantic.store.saveToDisk →
      Move c { c with semantic := c.semantic.step (.saveToDisk persisted) }
  | fade {c : Caches} {ks : Keyspace} : c.exact.Fades ks → Move c { c with exact := ks }
  | tick {c : Caches} {now : Int} : c.now ≤ now → Move c { c with now }

/-- How a request of a lookup is answered. Redis may fail, Search is free in what it finds. -/
inductive Answers (embed : Embedder) : Caches → Event Op Op.Reply → Caches → Prop
  | cacheGet {c : Caches} {key : String} {reply : Except String (Option CanonicalResponse)} :
      c.exact.get key = reply → Answers embed c ⟨.cacheGet key, reply⟩ c
  | cacheFailed {c : Caches} (key err : String) :
      Answers embed c ⟨.cacheGet key, .error ("exact: get: " ++ err)⟩ c
  | embed {c : Caches} {text : String} {reply : Except String Embedding.Vector} :
      embed text = reply → Answers embed c ⟨.embed text, reply⟩ c
  | semanticGet {c : Caches} {q : Query} (proposed : List Node)
      {hit : Option (CanonicalResponse × Value)} {reply : Option CanonicalResponse} :
      (c.semantic.store.get q c.now proposed).1 = .ok hit → hit.map Prod.fst = reply →
      Answers embed c ⟨.semanticGet q, reply⟩
        { c with semantic := c.semantic.step (.get q c.now proposed) }

/-- The same after any moves of others. -/
def Serve (embed : Embedder) (c : Caches) (ev : Event Op Op.Reply) (c' : Caches) : Prop :=
  ∃ middle, Relation.ReflTransGen Move c middle ∧ Answers embed middle ev c'

end Caches

/-- Whatever a later lookup for the org returns was stored after the purge. -/
def PurgeEffective (deps : ChatDeps) (embed : Embedder) (org : String) (after : Caches) : Prop :=
  ∀ (identity : Auth.Identity) (req : CanonicalRequest) (tr : Trace) (found : Lookup)
    (last : Caches) (resp : CanonicalResponse) (tier : CacheTier), identity.orgID = org →
    Runs (checkCaches deps req identity) tr found →
    Serves (Caches.Serve embed) after tr last → found.1 = some (resp, tier) → resp ∈ last.stored

/-- Tier 2 holds an unexpired entry of the org that some request is close enough to. -/
def StillServes (deps : ChatDeps) (embed : Embedder) (org : String) (c : Caches) : Prop :=
  ∃ (identity : Auth.Identity) (req : CanonicalRequest) (vector : Embedding.Vector) (key : String)
    (e : Entry) (sim : Value), identity.orgID = org ∧ consultsSemantic deps req = true ∧
    embed (concatUserTurns req.messages) = .ok vector ∧
    c.semantic.store.Matches (queryOf deps req identity vector) c.now key e sim ∧
    sim.lt c.semantic.store.threshold = false

theorem writeJSONError_status {r : Request} {status : Int} {message : String} {tr : Trace} {u : Unit}
    (run : Runs (writeJSONError r status message) tr u) :
    (({} : Http.Response).applyAll (httpCalls tr)).committed.map Prod.fst = some status := by
  unfold writeJSONError setHeader writeHeader write at run
  obtain ⟨_, _, rfl, headed⟩ := runs_perform_bind.mp run
  obtain ⟨_, _, rfl, written⟩ := runs_perform_bind.mp headed
  obtain ⟨_, _, rfl, ended⟩ := runs_perform_bind.mp written
  obtain ⟨rfl, -⟩ := runs_pure.mp ended
  rfl

theorem calls_inServer (tr : Trace) :
    (tr.map (liftEvent AdminOp.server fun _ => .refl _)).filterMap adminCall = httpCalls tr := by
  rw [List.filterMap_map]
  refine List.filterMap_congr fun ev _ => ?_
  obtain ⟨o, reply⟩ := ev
  cases o <;> rfl

theorem calls_inRedis (tr : List (Event RedisOp RedisOp.Reply)) :
    (tr.map (liftEvent AdminOp.redis fun _ => .refl _)).filterMap adminCall = [] :=
  List.filterMap_eq_nil_iff.mpr fun ev member => by
    obtain ⟨inner, -, rfl⟩ := List.mem_map.mp member
    rfl

/-- The answer to a refused purge is its status. -/
theorem refused_status {r : Request} {status : Int} {message : String}
    (past : List (Event AdminOp AdminOp.Reply)) {tr : List (Event AdminOp AdminOp.Reply)}
    {out : Ended} (silent : past.filterMap adminCall = [])
    (run : Runs (do inServer (writeJSONError r status message); pure Ended.returned) tr out) :
    answeredStatus (past ++ tr) = some status := by
  obtain ⟨tr₁, _, tr₂, rfl, wrote, ended⟩ := runs_bind.mp run
  obtain ⟨rfl, -⟩ := runs_pure.mp ended
  obtain ⟨inner, rfl, written⟩ := runs_lift wrote
  rw [answeredStatus, List.append_nil, List.filterMap_append, silent, List.nil_append,
    calls_inServer]
  exact writeJSONError_status written

/-- A purge that is answered 200 went through without an error. -/
theorem handlePurgeCache_ok {purger : Bool} {tenant requestID : String}
    {tr : List (Event AdminOp AdminOp.Reply)} {out : Ended}
    (run : Runs (handlePurgeCache purger ⟨.ok tenant, requestID⟩) tr out)
    (ok : answeredStatus tr = some 200) :
    ∃ inner count rest, tr = inner.map (liftEvent AdminOp.redis fun _ => .refl _) ++ rest ∧
      Runs (purgeTenant tenant) inner (count, none) := by
  simp only [handlePurgeCache] at run
  split at run
  · have bad := refused_status [] rfl run
    rw [List.nil_append, ok] at bad
    cases bad
  · split at run
    · obtain ⟨rfl, -⟩ := runs_pure.mp run
      cases ok
    · obtain ⟨tr₁, ⟨count, err⟩, tr₂, rfl, purged, answer⟩ := runs_bind.mp run
      obtain ⟨inner, rfl, purging⟩ := runs_lift purged
      cases err with
      | some err =>
          have bad := refused_status _ (calls_inRedis inner) answer
          rw [ok] at bad
          cases bad
      | none => exact ⟨inner, count, tr₂, rfl, purging⟩

theorem AdminAnswers.fades {ks ks' : Keyspace} {ev : Event AdminOp AdminOp.Reply}
    (h : AdminAnswers ks ev ks') : ks.Fades ks' := by
  cases h with
  | server fades => exact fades
  | redis answered => exact answered.fades

theorem serves_inRedis {inner : List (Event RedisOp RedisOp.Reply)} {ks ks' : Keyspace}
    (h : Serves AdminAnswers ks (inner.map (liftEvent AdminOp.redis fun _ => .refl _)) ks') :
    Serves Exact.Answers ks inner ks' := by
  induction inner generalizing ks with
  | nil =>
      cases h
      exact .nil _
  | cons ev rest ih =>
      cases h with
      | cons answered later =>
          cases answered with
          | redis served => exact .cons served (ih later)

/-- After the purge Redis holds nothing for the tenant. -/
theorem Purged.clears {tenant : String} {before after : Caches} (purged : Purged tenant before after)
    (verbatim : Verbatim tenant) {key : String}
    (own : (tenantStem tenant).toList <+: key.toList) : after.exact key = none := by
  obtain ⟨purger, requestID, tr, out, run, ok, served⟩ := purged.answered
  obtain ⟨inner, count, rest, rfl, purging⟩ := handlePurgeCache_ok run ok
  obtain ⟨middle, first, last⟩ := served.append
  have cleared := purgeTenant_clears verbatim purging (serves_inRedis first) own
  exact last.invariant (fun ks => ks key = none) cleared
    fun _ _ _ gone answered => answered.fades.none gone

/-- Where a lookup stands after the purge: what it can be given for the org was stored since,
or is an entry Tier 2 already had. -/
structure Caches.Since (org : String) (after c : Caches) : Prop where
  exact : ∀ key resp, (tenantStem org).toList <+: key.toList →
    c.exact key = some (.ok resp) → resp ∈ c.stored
  run : History.Run c.semantic
  entries : ∀ key e, c.semantic.store.entries.lookup key = some e →
    e.response ∈ c.stored ∨ after.semantic.store.entries.lookup key = some e
  threshold : c.semantic.store.threshold = after.semantic.store.threshold
  now : after.now ≤ c.now

namespace Caches.Since
variable {org : String} {after c c' : Caches}

theorem get (h : Since org after c) (q : Query) (proposed : List Node) :
    Since org after { c with semantic := c.semantic.step (.get q c.now proposed) } := by
  have kept := c.semantic.store.get_kept q c.now proposed
  have admitted : c.semantic.Admits (.get q c.now proposed) := trivial
  refine ⟨h.exact, h.run.step admitted, fun key e known => ?_, ?_, h.now⟩
  · exact h.entries key e (kept.1 ▸ known)
  · exact kept.2.trans h.threshold

theorem move (h : Since org after c) (moved : Move c c') : Since org after c' := by
  cases moved with
  | exactSet key resp =>
      refine ⟨?_, h.run, fun other e known => ?_, h.threshold, h.now⟩
      · intro other found own there
        by_cases same : other = key
        · subst same
          simp only [Keyspace.set, Function.update_self, Option.some.injEq, Except.ok.injEq] at there
          exact there ▸ List.mem_cons_self
        · change Function.update c.exact key _ other = _ at there
          rw [Function.update_of_ne same] at there
          exact List.mem_cons_of_mem _ (h.exact other found own there)
      · exact (h.entries other e known).imp_left (List.mem_cons_of_mem _)
  | @semanticSet q resp ttlOverride key fresh =>
      have admitted : c.semantic.Admits (.set q resp ttlOverride key c.now) := fresh
      refine ⟨?_, h.run.step admitted, ?_, ?_, h.now⟩
      · exact fun other found own there => List.mem_cons_of_mem _ (h.exact other found own there)
      · intro other e known
        have pushed := Semantic.Store.lookup_of_evictAbove known
        by_cases same : other = key
        · subst same
          rw [Semantic.Store.push, AList.lookup_insert, Option.some.injEq] at pushed
          subst pushed
          exact .inl List.mem_cons_self
        · rw [Semantic.Store.push, AList.lookup_insert_ne same] at pushed
          exact (h.entries other e pushed).imp_left (List.mem_cons_of_mem _)
      · exact (Semantic.Store.set_threshold _ _ _ _ _ _).trans h.threshold
  | semanticGet q proposed => exact h.get q proposed
  | @saveToDisk persisted listed =>
      have admitted : c.semantic.Admits (.saveToDisk persisted) := listed
      exact ⟨h.exact, h.run.step admitted, h.entries, h.threshold, h.now⟩
  | fade fades =>
      refine ⟨?_, h.run, h.entries, h.threshold, h.now⟩
      intro key resp own there
      rcases fades key with same | gone
      · exact h.exact key resp own (same ▸ there)
      · cases gone.symm.trans there
  | tick later => exact ⟨h.exact, h.run, h.entries, h.threshold, h.now.trans later⟩

theorem moves (h : Since org after c) (moved : Relation.ReflTransGen Move c c') :
    Since org after c' := by
  induction moved with
  | refl => exact h
  | tail _ last ih => exact ih.move last

theorem serve {embed : Embedder} {ev : Event Op Op.Reply} (h : Since org after c)
    (served : Serve embed c ev c') : Since org after c' := by
  obtain ⟨middle, moved, answered⟩ := served
  have there := h.moves moved
  cases answered with
  | cacheGet _ => exact there
  | cacheFailed key err => exact there
  | embed _ => exact there
  | semanticGet proposed _ _ => exact there.get _ proposed

end Caches.Since

theorem Caches.Move.stored {c c' : Caches} (moved : Move c c') : c.stored ⊆ c'.stored := by
  cases moved with
  | exactSet key resp => exact List.subset_cons_self _ _
  | semanticSet q resp ttlOverride fresh => exact List.subset_cons_self _ _
  | semanticGet | saveToDisk | fade | tick => exact List.Subset.refl _

theorem Caches.Serve.stored {embed : Embedder} {c c' : Caches} {ev : Event Op Op.Reply}
    (served : Serve embed c ev c') : c.stored ⊆ c'.stored := by
  obtain ⟨middle, moved, answered⟩ := served
  have before : c.stored ⊆ middle.stored := by
    clear answered
    induction moved with
    | refl => exact List.Subset.refl _
    | tail _ last ih => exact List.Subset.trans ih last.stored
  cases answered with
  | cacheGet | cacheFailed | embed | semanticGet => exact before

theorem exactKey_own (lib : Library) (tenantID canon : String) :
    (tenantStem tenantID).toList <+: (exactKey lib tenantID canon).toList := by
  unfold exactKey
  rw [String.toList_append]
  exact List.prefix_append _ _

theorem SemanticRun.no_exact {deps : ChatDeps} {req : CanonicalRequest} {identity : Auth.Identity}
    {exactCacheKey : String} {tr : Trace} {found : Lookup}
    (h : SemanticRun deps req identity exactCacheKey tr found) {key : String}
    {reply : Except String (Option CanonicalResponse)} :
    (⟨.cacheGet key, reply⟩ : Event Op Op.Reply) ∉ tr := by
  intro member
  cases h with
  | skipped _ => cases member
  | failed _ => simp at member
  | asked _ => simp at member

/-- Tier 1 is only asked for keys of the caller's org. -/
theorem checkCaches_own {deps : ChatDeps} {req : CanonicalRequest} {identity : Auth.Identity}
    {tr : Trace} {found : Lookup} (run : Runs (checkCaches deps req identity) tr found)
    {key : String} {reply : Except String (Option CanonicalResponse)}
    (member : (⟨.cacheGet key, reply⟩ : Event Op Op.Reply) ∈ tr) :
    (tenantStem identity.orgID).toList <+: key.toList := by
  unfold checkCaches at run
  split at run
  · split at run
    · exact absurd member (checkSemantic_cases run).no_exact
    · obtain ⟨first, tr', rfl, rest⟩ := runs_perform_bind.mp run
      rcases List.mem_cons.mp member with same | later
      · cases same
        exact exactKey_own deps.lib identity.orgID _
      · cases first with
        | error err => exact absurd later (checkSemantic_cases rest).no_exact
        | ok found =>
            cases found with
            | some cached =>
                obtain ⟨rfl, -⟩ := runs_pure.mp rest
                cases later
            | none => exact absurd later (checkSemantic_cases rest).no_exact
  · exact absurd member (checkSemantic_cases run).no_exact

theorem Purged.since {org : String} {before after : Caches} (purged : Purged org before after)
    (verbatim : Verbatim org) (run : History.Run before.semantic) :
    Caches.Since org after after where
  exact := by
    intro key resp own there
    rw [purged.clears verbatim own] at there
    cases there
  run := purged.semantic ▸ run
  entries _ _ known := .inr known
  threshold := rfl
  now := le_rfl

section Lookups
variable {deps : ChatDeps} {embed : Embedder} {org : String} {after last : Caches}
  {identity : Auth.Identity} {req : CanonicalRequest} {tr : Trace} {found : Lookup}
  {resp : CanonicalResponse} {tier : CacheTier}

/-- The event a lookup has its response from. -/
theorem exists_hit_event (run : Runs (checkCaches deps req identity) tr found)
    (hit : found.1 = some (resp, tier)) :
    (∃ key, (⟨.cacheGet key, .ok (some resp)⟩ : Event Op Op.Reply) ∈ tr) ∨
      ∃ q, (⟨.semanticGet q, some resp⟩ : Event Op Op.Reply) ∈ tr := by
  have hits := checkCaches_hits run
  have listed : resp ∈ cacheHits tr := by simp [hits, hit]
  obtain ⟨⟨o, reply⟩, member, seen⟩ := List.mem_filterMap.mp listed
  unfold cacheHit at seen
  split at seen
  · rename_i key cached same
    cases same
    cases seen
    exact .inl ⟨key, member⟩
  · rename_i q cached same
    cases same
    cases seen
    exact .inr ⟨q, member⟩
  · cases seen

/-- The embedding model answers alike whenever it is asked. -/
theorem embedded_of_mem {text : String} {reply : Except String Embedding.Vector}
    (served : Serves (Caches.Serve embed) after tr last)
    (member : (⟨.embed text, reply⟩ : Event Op Op.Reply) ∈ tr) : embed text = reply := by
  obtain ⟨_, _, _, -, ⟨middle, -, answered⟩, -⟩ :=
    served.of_mem (fun _ => True) trivial (fun _ _ _ _ _ => trivial) member
  cases answered with
  | embed same => exact same

/-- Without an old entry in reach, what a lookup returns was stored since. -/
theorem stored_since (since : Caches.Since org after after) (own : identity.orgID = org)
    (run : Runs (checkCaches deps req identity) tr found)
    (served : Serves (Caches.Serve embed) after tr last) (hit : found.1 = some (resp, tier))
    (unreached : ¬ StillServes deps embed org after) : resp ∈ last.stored := by
  have kept (c : Caches) (ev : Event Op Op.Reply) (c' : Caches) (h : Caches.Since org after c)
      (one : Caches.Serve embed c ev c') := h.serve one
  have grows {c : Caches} {rest : Trace} (later : Serves (Caches.Serve embed) c rest last)
      (there : resp ∈ c.stored) : resp ∈ last.stored :=
    later.invariant (resp ∈ ·.stored) there fun _ _ _ member one => one.stored member
  rcases exists_hit_event run hit with ⟨key, member⟩ | ⟨q, member⟩
  · obtain ⟨c, c', rest, h, ⟨middle, moved, answered⟩, later⟩ := served.of_mem _ since kept member
    have ownKey := checkCaches_own run member
    rw [own] at ownKey
    cases answered with
    | cacheGet got =>
        exact grows later ((h.moves moved).exact key resp ownKey (Keyspace.get_hit got))
  · obtain ⟨c, c', rest, h, ⟨middle, moved, answered⟩, later⟩ := served.of_mem _ since kept member
    obtain ⟨consulted, vector, embedded, rfl⟩ := (checkCaches_cases run).get member
    have there := h.moves moved
    cases answered with
    | semanticGet proposed got same =>
        obtain ⟨⟨_, sim⟩, rfl, rfl⟩ := Option.map_eq_some_iff.mp same
        obtain ⟨found, scanned, rfl, rfl⟩ := Semantic.Store.get_hit got
        have inside (node : Node) (listed : node ∈ middle.semantic.store.search proposed) :
            node ∈ middle.semantic.store.graph := of_decide_eq_true (List.mem_filter.mp listed).2
        obtain ⟨node, -, e, matched, notBelow, response⟩ :=
          Semantic.Store.hit_matches there.run.labelled inside scanned
        rcases there.entries node.key e matched.live with new | old
        · exact grows later (response ▸ new)
        · refine absurd ⟨identity, req, vector, node.key, e, found.sim, own, consulted,
            embedded_of_mem served embedded, ?_, there.threshold ▸ notBelow⟩ unreached
          exact { matched with live := old, unexpired := there.now.trans matched.unexpired }

/-- A Tier-2 lookup that the store answers. -/
def hitTrace (deps : ChatDeps) (req : CanonicalRequest) (identity : Auth.Identity)
    (vector : Embedding.Vector) (resp : CanonicalResponse) : Trace :=
  [⟨.embed (concatUserTurns req.messages), .ok vector⟩,
    ⟨.semanticGet (queryOf deps req identity vector), some resp⟩]

theorem runs_hitTrace (exactCacheKey : String) (vector : Embedding.Vector)
    (consulted : consultsSemantic deps req = true) (resp : CanonicalResponse) :
    ∃ lookup, Runs (checkSemantic deps req identity exactCacheKey)
      (hitTrace deps req identity vector resp) (some (resp, .semantic), lookup) := by
  unfold checkSemantic
  change ∃ lookup, Runs (if consultsSemantic deps req = true then _ else _) _ (_, lookup)
  rw [if_pos consulted]
  exact ⟨_, runs_perform_bind.mpr
    ⟨.ok vector, _, rfl, runs_perform_bind.mpr ⟨some resp, _, rfl, .pure _⟩⟩⟩

theorem Caches.Serve.at_once {c c' : Caches} {ev : Event Op Op.Reply}
    (answered : Caches.Answers embed c ev c') : Caches.Serve embed c ev c' :=
  ⟨c, .refl, answered⟩

/-- Where Redis has nothing for the org, a lookup gets what Tier 2 finds. -/
theorem exists_tier2_hit {c : Caches} {vector : Embedding.Vector} {sim : Value} {proposed : List Node}
    (cleared : ∀ key, (tenantStem identity.orgID).toList <+: key.toList → c.exact key = none)
    (consulted : consultsSemantic deps req = true)
    (embedded : embed (concatUserTurns req.messages) = .ok vector)
    (hit : (c.semantic.store.get (queryOf deps req identity vector) c.now proposed).1 =
      .ok (some (resp, sim))) :
    ∃ tr found last, Runs (checkCaches deps req identity) tr found ∧
      found.1 = some (resp, .semantic) ∧ Serves (Caches.Serve embed) c tr last ∧
      last.stored = c.stored := by
  have lookup : Serves (Caches.Serve embed) c (hitTrace deps req identity vector resp) _ :=
    .cons (.at_once (.embed embedded)) (.cons (.at_once (.semanticGet proposed hit rfl)) (.nil _))
  unfold checkCaches
  split
  · split
    · obtain ⟨found, run⟩ := runs_hitTrace "" vector consulted resp
      exact ⟨_, _, _, run, rfl, lookup, rfl⟩
    · rename_i canon _
      have key := exactKey_own deps.lib identity.orgID canon
      obtain ⟨found, run⟩ := runs_hitTrace (exactKey deps.lib identity.orgID canon) vector consulted resp
      refine ⟨_, _, _, runs_perform_bind.mpr ⟨.ok none, _, rfl, run⟩, rfl,
        .cons (.at_once (.cacheGet ?_)) lookup, rfl⟩
      simp only [Keyspace.get, cleared _ key]
  · obtain ⟨found, run⟩ := runs_hitTrace "" vector consulted resp
    exact ⟨_, _, _, run, rfl, lookup, rfl⟩

/-- An old entry in reach is served right after the purge. -/
theorem StillServes.stale (reached : StillServes deps embed org after)
    (run : History.Run after.semantic) (none_stored : after.stored = [])
    (cleared : ∀ key, (tenantStem org).toList <+: key.toList → after.exact key = none) :
    ¬ PurgeEffective deps embed org after := by
  intro effective
  obtain ⟨identity, req, vector, key, e, sim, rfl, consulted, embedded, matched, notBelow⟩ := reached
  obtain ⟨tr, found, last, looked, hit, served, stored⟩ := exists_tier2_hit cleared consulted embedded
    (matched.get_alone run.indexes notBelow)
  have new := effective identity req tr found last e.response .semantic rfl looked served hit
  rw [stored, none_stored] at new
  cases new

end Lookups

def acme : Auth.Identity := { caller with orgID := "6ba7b810-9dad-11d1-80b4-00c04fd430c8" }

def acmeKey : String := exactKey withTier2.lib acme.orgID "chat"

/-- An answer to `hello` in Tier 1, beside this Tier 2. -/
def answeredOnce (semantic : History) : Caches where
  exact := Keyspace.set (fun _ => none) acmeKey greeting
  semantic := semantic
  now := 1

def emptied (semantic : History) : Caches where
  exact _ := none
  semantic := semantic
  now := 1

def purgeTrace : List (Event AdminOp AdminOp.Reply) :=
  [⟨.redis (.scan (tenantStem acme.orgID ++ "*")), ([acmeKey], none)⟩, ⟨.redis (.del acmeKey), none⟩,
    ⟨.server (.http (.setHeader "Content-Type" "application/json")), ()⟩,
    ⟨.server (.http (.writeHeader 200)), ()⟩,
    ⟨.server (.http (.write (encodeLine (purgeCacheResponse 1)))), none⟩]

theorem answeredOnce_purged (semantic : History) :
    Purged acme.orgID (answeredOnce semantic) (emptied semantic) where
  answered := by
    refine ⟨true, "r1", purgeTrace, .returned, ?_, rfl, ?_⟩
    · exact .request _ (.request _ (.request _ (.request _ (.request _ (.pure _)))))
    · have fades (ks : Keyspace) : ks.Fades fun _ => none := fun _ => .inr rfl
      refine .cons (.redis (.scan (fun _ => .inl rfl) fun _ stem _ _ key _ there => ?_))
        (.cons (.redis (.del (fades _) fun _ => rfl)) (.cons (.server (fades _))
          (.cons (.server (fades _)) (.cons (.server (fades _)) (.nil _)))))
      by_contra other
      rw [List.mem_singleton] at other
      change Function.update (fun _ => none) acmeKey _ key ≠ none at there
      rw [Function.update_of_ne other] at there
      exact there rfl
  semantic := rfl
  later := le_rfl
  none_stored := rfl

/-- Tier 2 with the same answer. -/
def answeredTwice : History :=
  (History.start 1 (.finite (9 / 10)) 10).step
    (.set (queryOf withTier2 hello acme [.finite 1]) greeting none "k1" 0)

theorem answeredTwice_run : History.Run answeredTwice :=
  (History.Run.start _ _ _).step (show _ ∉ _ from List.not_mem_nil)

def reworded : CanonicalRequest := { model := "chat", messages := [⟨"user", "hello there"⟩] }

end Gateway.Server
