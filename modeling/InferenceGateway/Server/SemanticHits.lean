import InferenceGateway.Cache.History
import InferenceGateway.Server.Hits

/-! Hits of the Tier-2 cache across requests. Any number of chat requests run interleaved over
one store, which evicts, expires and searches as it likes; it may have been loaded from disk. -/
namespace Gateway.Server
open Gateway.Providers
open Gateway.Embedding (cosineSimilarity)
open Gateway.Semantic (Query Stored History Node Store)
open Binary64 (Value)
open Interaction hiding Program.perform
open Interaction.Program hiding pure perform

structure Index where
  clock : Int
  history : History

/-- What a step brings with it: the time, the key a Set draws, what the graph's search
proposes and the answers of everything else. -/
structure Glance where
  now : Int
  key : String
  proposed : List Node
  answer : (op : Op) → op.Reply

/-- A lookup that panics ends its request; here it is a miss the request may not live to see. -/
def hitOf : Except Embedding.Panic (Option (CanonicalResponse × Value)) → Option CanonicalResponse
  | .ok (some found) => some found.1
  | _ => none

def Index.serve (w : Index) (g : Glance) : (op : Op) → op.Reply × Index
  | .semanticGet q =>
      (hitOf (w.history.store.get q (max w.clock g.now) g.proposed).1,
        ⟨max w.clock g.now, w.history.step (.get q (max w.clock g.now) g.proposed)⟩)
  | .semanticSet q resp ttlOverride =>
      ((), ⟨max w.clock g.now, w.history.step (.set q resp ttlOverride g.key (max w.clock g.now))⟩)
  | op => (g.answer op, { w with clock := max w.clock g.now })

abbrev SemanticPool := RecordPool Op Op.Reply Ended Index Int

def semanticChats (deps : ChatDeps) :
    System Op Op.Reply (List (Int × Event Op Op.Reply)) Ended Index Request Glance :=
  .recording (handleChatCompletions deps) Index.serve Index.clock

/-- uuid.NewString never repeats. -/
def freshKeys (pool : SemanticPool) : Move Request Glance → Bool
  | .start _ => true
  | .act _ g => g.key ∉ pool.shared.history.sets.map Stored.key

/-- Some request made the Set, no later than `now`. -/
def SetBy (deps : ChatDeps) (ttl : Duration) (pool : SemanticPool) (set : Stored) (now : Int) : Prop :=
  ∃ r s ttlOverride, Recorded (handleChatCompletions deps) pool r
      (s, ⟨.semanticSet set.query set.response ttlOverride, ()⟩) ∧
    set.expiresAt = s + (ttlOverride.getD ttl).toInt ∧ s ≤ now

/-- The Set may answer the lookup at that time. -/
structure Answers (set : Stored) (threshold : Value) (q : Query) (t : Int) (cached : CanonicalResponse) :
    Prop where
  response : set.response = cached
  tenantID : set.query.tenantID = q.tenantID
  model : set.query.model = q.model
  toolsCanonical : set.query.toolsCanonical = q.toolsCanonical
  responseFormatCanonical : set.query.responseFormatCanonical = q.responseFormatCanonical
  unexpired : t ≤ set.expiresAt
  similar : ∃ sim, cosineSimilarity q.vector set.query.vector = .ok sim ∧ sim.lt threshold = false

/-- Every Set and every hit is accounted for by the requests, or by what was loaded. -/
structure Referable (deps : ChatDeps) (first : History) (pool : SemanticPool) : Prop where
  traced : Interaction.Traced (handleChatCompletions deps) pool
  history : pool.shared.history.Traced
  ttl : pool.shared.history.store.ttl = first.store.ttl
  threshold : pool.shared.history.store.threshold = first.store.threshold
  sets : ∀ set ∈ pool.shared.history.sets, set ∈ first.sets ∨
    SetBy deps first.store.ttl pool set pool.shared.clock
  hits : ∀ t q cached, OnRecord pool (t, ⟨.semanticGet q, some cached⟩) →
    ∃ set, (set ∈ first.sets ∨ SetBy deps first.store.ttl pool set t) ∧
      Answers set first.store.threshold q t cached

section Steps
variable {deps : ChatDeps} {first : History} {pool next : SemanticPool} {w : Index} {g : Glance}
  {move : Move Request Glance} {set : Stored} {ttl : Duration} {now later : Int}

theorem SetBy.step (h : SetBy deps ttl pool set now) (past : now ≤ later)
    (moved : (semanticChats deps).step pool move = some next) : SetBy deps ttl next set later := by
  obtain ⟨r, s, ttlOverride, recorded, expires, before⟩ := h
  exact ⟨r, s, ttlOverride, recorded.step moved, expires, before.trans past⟩

theorem Index.serve_clock (op : Op) : (w.serve g op).2.clock = max w.clock g.now := by
  cases op <;> rfl

theorem Index.serve_traced (traced : w.history.Traced)
    (fresh : g.key ∉ w.history.sets.map Stored.key) (op : Op) : (w.serve g op).2.history.Traced := by
  cases op with
  | semanticGet q => exact traced.get
  | semanticSet q resp ttlOverride => exact traced.set fresh
  | _ => exact traced

theorem Index.serve_parameters (op : Op) :
    (w.serve g op).2.history.store.ttl = w.history.store.ttl ∧
      (w.serve g op).2.history.store.threshold = w.history.store.threshold := by
  cases op with
  | semanticGet q =>
      rcases w.history.store.get_cases q (max w.clock g.now) g.proposed with same | ⟨key, -, touched⟩
      · simp only [Index.serve, History.step, same, and_self]
      · simp only [Index.serve, History.step, touched, Store.moveToFront, and_self]
  | semanticSet q resp ttlOverride =>
      exact ⟨Store.set_ttl _ _ _ _ _ _, Store.set_threshold _ _ _ _ _ _⟩
  | _ => exact ⟨rfl, rfl⟩

theorem Index.serve_sets {op : Op} (h : set ∈ (w.serve g op).2.history.sets) :
    set ∈ w.history.sets ∨ ∃ q resp ttlOverride, op = .semanticSet q resp ttlOverride ∧
      set = ⟨g.key, q, resp, w.history.store.expiry ttlOverride (max w.clock g.now)⟩ := by
  cases op with
  | semanticSet q resp ttlOverride =>
      rcases List.mem_cons.mp h with new | old
      · exact .inr ⟨q, resp, ttlOverride, rfl, new⟩
      · exact .inl old
  | _ => exact .inl h

/-- A lookup is answered by a Set there was. -/
theorem Index.serve_hit {q : Query} {cached : CanonicalResponse} (traced : w.history.Traced)
    (h : (w.serve g (.semanticGet q)).1 = some cached) :
    ∃ set ∈ w.history.sets, Answers set w.history.store.threshold q (max w.clock g.now) cached := by
  change hitOf (w.history.store.get q (max w.clock g.now) g.proposed).1 = some cached at h
  cases found : (w.history.store.get q (max w.clock g.now) g.proposed).1 with
  | error panic => simp [found, hitOf] at h
  | ok hit =>
      cases hit with
      | none => simp [found, hitOf] at h
      | some hit =>
          obtain rfl : hit.1 = cached := by simpa [found, hitOf] using h
          obtain ⟨at_, scanned, response, sim⟩ := Store.get_hit found
          obtain ⟨set, member, serves⟩ := traced.serves scanned
          refine ⟨set, member, serves.response.trans response, serves.tenantID, serves.model,
            serves.toolsCanonical, serves.responseFormatCanonical, serves.unexpired, at_.sim,
            serves.similar, ?_⟩
          rw [sim]
          exact History.hit_notBelow found

theorem Referable.step (h : Referable deps first pool) (ok : freshKeys pool move = true)
    (moved : (semanticChats deps).step pool move = some next) : Referable deps first next := by
  have traced := h.traced.step moved
  have older : ∀ {set : Stored} {now later : Int}, now ≤ later →
      (set ∈ first.sets ∨ SetBy deps first.store.ttl pool set now) →
      (set ∈ first.sets ∨ SetBy deps first.store.ttl next set later) := by
    intro set now later past known
    exact known.imp_right fun made => made.step past moved
  have recalled : ∀ t q cached, OnRecord pool (t, ⟨.semanticGet q, some cached⟩) →
      ∃ set, (set ∈ first.sets ∨ SetBy deps first.store.ttl next set t) ∧
        Answers set first.store.threshold q t cached := by
    intro t q cached recorded
    obtain ⟨set, known, answers⟩ := h.hits t q cached recorded
    exact ⟨set, older le_rfl known, answers⟩
  cases move with
  | start r =>
      cases moved
      refine ⟨traced, h.history, h.ttl, h.threshold, ?_, ?_⟩
      · intro set member
        exact older le_rfl (h.sets set member)
      · intro t q cached recorded
        exact recalled t q cached (onRecord_start recorded)
  | act i g =>
      obtain ⟨op, continue_, past, found, rfl⟩ := System.act_cases moved
      obtain ⟨ttl, threshold⟩ := Index.serve_parameters (w := pool.shared) (g := g) op
      refine ⟨traced, Index.serve_traced h.history (by simpa [freshKeys] using ok) op,
        ttl.trans h.ttl, threshold.trans h.threshold, ?_, ?_⟩
      · intro set member
        obtain old | ⟨q, resp, ttlOverride, rfl, rfl⟩ := Index.serve_sets member
        · refine older ?_ (h.sets set old)
          exact (le_max_left _ _).trans (Index.serve_clock op).ge
        · obtain ⟨r, recorded⟩ := recorded_act Index.clock h.traced
            (pool.shared.serve g (.semanticSet q resp ttlOverride)).2 () found
          refine .inr ⟨r, _, ttlOverride, recorded, ?_, le_rfl⟩
          simp only [Store.expiry, h.ttl]
          rfl
      · intro t q cached recorded
        obtain earlier | new := onRecord_act found recorded
        · exact recalled t q cached earlier
        · obtain ⟨rfl, event⟩ := Prod.mk.inj new
          obtain ⟨rfl, reply⟩ := Sigma.mk.inj event
          obtain ⟨set, member, answers⟩ := Index.serve_hit h.history (eq_of_heq reply).symm
          rw [h.threshold] at answers
          exact ⟨set, older (le_max_left _ _) (h.sets set member), answers⟩

theorem referable_of_reaches {start : SemanticPool} (fresh : start.processes = [])
    (loaded : History.Run start.shared.history)
    (reached : (semanticChats deps).Reaches (fun pool move => freshKeys pool move = true) start pool) :
    Referable deps start.shared.history pool := by
  refine reached.invariant ⟨?_, loaded.traced, rfl, rfl, fun _ => .inl, ?_⟩
    fun _ _ _ inv ok moved => inv.step ok moved
  · rw [Traced, fresh]
    intro process member
    cases member
  · intro t q cached recorded
    obtain ⟨process, member, -⟩ := recorded
    rw [fresh] at member
    cases member

/-- Every Tier-2 hit is sound, in any interleaving of requests, whatever the store evicts and
the graph proposes: the response was loaded with the store or set by a request, and that one
was of the same org and model, with the same canonical tools and response format and a vector
not below the threshold, and is no older than its TTL, which the operator's limits bound. -/
theorem semantic_hit_sound {start : SemanticPool} (fresh : start.processes = [])
    (loaded : History.Run start.shared.history)
    (reached : (semanticChats deps).Reaches (fun pool move => freshKeys pool move = true) start pool)
    {r : Request} {t : Int} {q : Query} {cached : CanonicalResponse}
    (hit : Recorded (handleChatCompletions deps) pool r (t, ⟨.semanticGet q, some cached⟩)) :
    ∃ p vector set, prepare deps r = .ok p ∧ q = queryOf deps p.req p.identity vector ∧
      Answers set start.shared.history.store.threshold q t cached ∧
      (set ∈ start.shared.history.sets ∨ ∃ r' p' vector' s ttlOverride,
        prepare deps r' = .ok p' ∧ set.query = queryOf deps p'.req p'.identity vector' ∧
        Recorded (handleChatCompletions deps) pool r' (s, ⟨.semanticSet set.query cached ttlOverride, ()⟩) ∧
        p'.identity.orgID = p.identity.orgID ∧ p'.req.model = p.req.model ∧
        s ≤ t ∧ t ≤ s + (ttlOverride.getD start.shared.history.store.ttl).toInt ∧
        (ttlOverride.getD start.shared.history.store.ttl).toInt ≤
          max start.shared.history.store.ttl.toInt deps.cacheMaxClientTTL.toInt) := by
  have referable := referable_of_reaches fresh loaded reached
  obtain ⟨process, member, -, recorded⟩ := id hit
  obtain ⟨set, known, answers⟩ := referable.hits t q cached ⟨process, member, recorded⟩
  obtain alone | ⟨p, ready, vector, mine⟩ := Recorded.permitted hit
  · cases alone
  refine ⟨p, vector, set, ready, mine, answers, known.imp_right ?_⟩
  rintro ⟨r', s, ttlOverride, made, expires, before⟩
  obtain alone | ⟨p', ready', ⟨vector', theirs⟩, hinted, -⟩ := Recorded.permitted made
  · cases alone
  have org := answers.tenantID
  have model := answers.model
  rw [show set.query = _ from theirs, mine] at org model
  have young := answers.unexpired
  rw [expires] at young
  rw [answers.response] at made
  refine ⟨r', p', vector', s, ttlOverride, ready', theirs, made, org, model, before, young, ?_⟩
  cases ttlOverride with
  | none => exact le_max_left _ _
  | some d => exact le_max_of_le_right (prepare_ttl ready' hinted.symm)

end Steps

/-- Everything goes well at time 0, every text embeds to the same vector, and the search
proposes what is stored under the first key. -/
def glance (key : String) : Glance where
  now := 0
  key := key
  proposed := [⟨"1", [.finite 1]⟩]
  answer
    | .embed _ => .ok [.finite 1]
    | op => quietly.answer op

def tier2Only : ChatDeps := { withTier2 with cache := false }

/-- Two equal requests: the first stores its answer, the second looks it up. -/
def inTurn : Option SemanticPool :=
  (semanticChats tier2Only).run freshKeys ⟨⟨0, .start 4 (.finite 0) 60⟩, []⟩
    (.start (asked hello) :: .start (asked hello) ::
      (List.replicate 16 (.act 0 (glance "1")) ++ List.replicate 4 (.act 1 (glance "2"))))

/-- The lookups on record that hit. -/
def semanticHit : Int × Event Op Op.Reply → Option (Int × Query × CanonicalResponse)
  | (t, ⟨.semanticGet q, some cached⟩) => some (t, q, cached)
  | _ => none

theorem semanticHit_some {entry : Int × Event Op Op.Reply} {t : Int} {q : Query}
    {cached : CanonicalResponse} (h : semanticHit entry = some (t, q, cached)) :
    entry = (t, ⟨.semanticGet q, some cached⟩) := by
  unfold semanticHit at h
  split at h
  · cases h
    rfl
  · cases h

theorem second_lookup_hit_sound :
    ∃ (pool : SemanticPool) (r r' : Request) (t s : Int) (q q' : Query) (cached : CanonicalResponse)
      (ttlOverride : Option Duration), inTurn = some pool ∧
      Recorded (handleChatCompletions tier2Only) pool r (t, ⟨.semanticGet q, some cached⟩) ∧
      Recorded (handleChatCompletions tier2Only) pool r' (s, ⟨.semanticSet q' cached ttlOverride, ()⟩) ∧
      t ≤ s + (ttlOverride.getD (60 : Duration)).toInt := by
  have facts : (inTurn.bind fun pool => pool.processes[1]?.bind fun p =>
      (p.state.filterMap semanticHit).head?.map fun _ => true) = some true := by decide +kernel
  obtain ⟨pool, ran, rest⟩ := Option.bind_eq_some_iff.mp facts
  obtain ⟨p, found, rest⟩ := Option.bind_eq_some_iff.mp rest
  obtain ⟨⟨t, q, cached⟩, head, -⟩ := Option.map_eq_some_iff.mp rest
  obtain ⟨entry, member, hit⟩ := List.mem_filterMap.mp (List.mem_of_head? head)
  cases semanticHit_some hit
  have loaded : History.Run (History.start 4 (.finite 0) 60) := .start _ _ _
  have reached := System.Reaches.of_run ran
  have present := List.mem_of_getElem? found
  obtain ⟨r, serves⟩ := (referable_of_reaches rfl loaded reached).traced p present
  have recorded : Recorded (handleChatCompletions tier2Only) pool r (t, ⟨.semanticGet q, some cached⟩) :=
    ⟨p, present, serves, member⟩
  obtain ⟨-, -, set, -, -, -, old | ⟨r', -, -, s, ttlOverride, -, -, made, -, -, -, young, -⟩⟩ :=
    semantic_hit_sound rfl loaded reached recorded
  · cases old
  · exact ⟨pool, r, r', t, s, q, set.query, cached, ttlOverride, ran, recorded, made, young⟩

end Gateway.Server
