import InferenceGateway.Cache.Stored
import InferenceGateway.Server.Ownership
import InferenceGateway.Server.Tenancy

/-! Hits of the exact cache across requests. Any number of chat requests run interleaved over
one Redis, which may fail any call before or after it took effect, lose any key and expire
what it holds. -/
namespace Gateway.Server
open Gateway.Providers Gateway.Retry
open Gateway.RateLimit (Fate)
open Gateway.Redis (Strings expiryOf)
open Gateway.Exact (marshalResponse unmarshalResponse unmarshal_marshalResponse)
open Interaction hiding Program.perform
open Interaction.Program hiding pure perform

/-- What the requests share of Redis, and the clock it expires keys by. -/
structure Shelf where
  clock : Int
  strings : Strings

/-- What a step brings with it: the time, the keys that were lost since the last one, the fate
of a call to Redis and the answers of everything else. -/
structure Visit where
  now : Int
  lost : String → Bool
  fate : Fate
  answer : (op : Op) → op.Reply

def Shelf.meet (w : Shelf) (v : Visit) : Shelf where
  clock := max w.clock v.now
  strings key := if v.lost key then none else w.strings key

def Shelf.serve (store : Exact.Store) (w : Shelf) (v : Visit) : (op : Op) → op.Reply × Shelf
  | .cacheGet key => (store.get v.fate (w.meet v).strings (w.meet v).clock key, w.meet v)
  | .cacheSet key resp ttlOverride =>
      let stored := store.set v.fate (w.meet v).strings (w.meet v).clock key resp ttlOverride
      (stored.1, { w.meet v with strings := stored.2 })
  | op => (v.answer op, w.meet v)

abbrev ChatPool := RecordPool Op Op.Reply Ended Shelf Int

/-- The running gateway; every request keeps a record of what it did and when. -/
def chats (store : Exact.Store) (deps : ChatDeps) :
    System Op Op.Reply (List (Int × Event Op Op.Reply)) Ended Shelf Request Visit :=
  System.recording (handleChatCompletions deps) (Shelf.serve store) Shelf.clock

/-- Some request stored the response under the key, to be kept until then. -/
def StoredBy (store : Exact.Store) (deps : ChatDeps) (pool : ChatPool) (key : String)
    (resp : CanonicalResponse) (expiry : Option Int) (now : Int) : Prop :=
  ∃ r s ttlOverride reply,
    Recorded (handleChatCompletions deps) pool r (s, ⟨.cacheSet key resp ttlOverride, reply⟩) ∧
      expiry = expiryOf s (store.lifetime ttlOverride) ∧ s ≤ now

/-- What is on the shelf was stored by a request, and so was what a lookup found. -/
structure Accountable (store : Exact.Store) (deps : ChatDeps) (pool : ChatPool) : Prop where
  traced : Traced (handleChatCompletions deps) pool
  kept : ∀ key raw expiry, pool.shared.strings key = some (raw, expiry) →
    ∃ resp, raw = marshalResponse resp ∧
      StoredBy store deps pool key resp expiry pool.shared.clock
  hits : ∀ t key cached, OnRecord pool (t, ⟨.cacheGet key, .ok (some cached)⟩) →
    ∃ expiry, StoredBy store deps pool key cached expiry t ∧ ∀ time, expiry = some time → t ≤ time

section Steps
variable {store : Exact.Store} {deps : ChatDeps} {pool next : ChatPool} {w : Shelf} {v : Visit}
  {move : Move Request Visit} {key : String} {resp : CanonicalResponse} {expiry : Option Int}
  {now later : Int}

theorem StoredBy.step (h : StoredBy store deps pool key resp expiry now) (past : now ≤ later)
    (moved : (chats store deps).step pool move = some next) :
    StoredBy store deps next key resp expiry later := by
  obtain ⟨r, s, ttlOverride, reply, recorded, until_, before⟩ := h
  exact ⟨r, s, ttlOverride, reply, recorded.step moved, until_, before.trans past⟩

theorem Shelf.meet_some {entry : String × Option Int} (h : (w.meet v).strings key = some entry) :
    w.strings key = some entry := by
  simp only [Shelf.meet] at h
  split at h
  · cases h
  · exact h

theorem Shelf.serve_clock (op : Op) : (w.serve store v op).2.clock = (w.meet v).clock := by
  cases op <;> rfl

theorem Shelf.clock_le (w : Shelf) (v : Visit) : w.clock ≤ (w.meet v).clock := le_max_left _ _

/-- What a step leaves on the shelf was there, or is what it stored. -/
theorem Shelf.serve_some {op : Op} {entry : String × Option Int}
    (h : (w.serve store v op).2.strings key = some entry) :
    w.strings key = some entry ∨ ∃ resp ttlOverride, op = .cacheSet key resp ttlOverride ∧
      entry = (marshalResponse resp, expiryOf (w.meet v).clock (store.lifetime ttlOverride)) := by
  cases op with
  | cacheSet other resp ttlOverride =>
      obtain old | ⟨rfl, new⟩ := Strings.set_some h
      · exact .inl (Shelf.meet_some old)
      · exact .inr ⟨resp, ttlOverride, rfl, new⟩
  | _ => exact .inl (Shelf.meet_some h)

/-- A lookup finds what was on the shelf and has not expired. -/
theorem Shelf.serve_hit {cached : CanonicalResponse}
    (h : (w.serve store v (.cacheGet key)).1 = .ok (some cached)) :
    ∃ raw expiry, w.strings key = some (raw, expiry) ∧ unmarshalResponse raw = some cached ∧
      ∀ time, expiry = some time → (w.meet v).clock ≤ time := by
  obtain ⟨raw, live, decoded⟩ := Exact.Store.get_hit (s := store) h
  obtain ⟨expiry, found, alive⟩ := Strings.live_some live
  exact ⟨raw, expiry, Shelf.meet_some found, decoded, alive⟩

theorem Accountable.step (h : Accountable store deps pool)
    (moved : (chats store deps).step pool move = some next) : Accountable store deps next := by
  refine ⟨h.traced.step moved, ?_, ?_⟩
  · obtain ⟨r, rfl⟩ | ⟨i, v, op, continue_, past, found, rfl⟩ := recording_cases moved
    · intro key raw expiry stored
      obtain ⟨resp, same, by_⟩ := h.kept key raw expiry stored
      exact ⟨resp, same, by_.step le_rfl moved⟩
    · intro key raw expiry stored
      obtain old | ⟨resp, ttlOverride, rfl, new⟩ := Shelf.serve_some stored
      · obtain ⟨resp, same, by_⟩ := h.kept key raw expiry old
        refine ⟨resp, same, by_.step ?_ moved⟩
        rw [Shelf.serve_clock]
        exact Shelf.clock_le _ _
      · cases new
        obtain ⟨r, recorded⟩ := recorded_act Shelf.clock h.traced
          (pool.shared.serve store v (.cacheSet key resp ttlOverride)).2 _ found
        exact ⟨resp, rfl, r, _, ttlOverride, _, recorded, rfl, le_rfl⟩
  · intro t key cached recorded
    have old : OnRecord pool (t, ⟨.cacheGet key, .ok (some cached)⟩) →
        ∃ expiry, StoredBy store deps next key cached expiry t ∧
          ∀ time, expiry = some time → t ≤ time := by
      intro earlier
      obtain ⟨expiry, by_, alive⟩ := h.hits t key cached earlier
      exact ⟨expiry, by_.step le_rfl moved, alive⟩
    obtain ⟨r, rfl⟩ | ⟨i, v, op, continue_, past, found, rfl⟩ := recording_cases moved
    · exact old (onRecord_start recorded)
    · obtain earlier | new := onRecord_act found recorded
      · exact old earlier
      · obtain ⟨rfl, event⟩ := Prod.mk.inj new
        obtain ⟨rfl, reply⟩ := Sigma.mk.inj event
        obtain ⟨raw, expiry, stored, decoded, alive⟩ := Shelf.serve_hit (eq_of_heq reply).symm
        obtain ⟨resp, rfl, by_⟩ := h.kept key raw expiry stored
        rw [unmarshal_marshalResponse] at decoded
        cases decoded
        exact ⟨expiry, by_.step (Shelf.clock_le _ _) moved, alive⟩

theorem accountable_of_reaches {first : ChatPool}
    (fresh : first.processes = [] ∧ first.shared.strings = fun _ => none)
    (reached : (chats store deps).Reaches (fun _ _ => True) first pool) :
    Accountable store deps pool := by
  refine reached.invariant ⟨?_, ?_, ?_⟩ fun _ _ _ inv _ moved => inv.step moved
  · rw [Traced, fresh.1]
    nofun
  · rw [fresh.2]
    nofun
  · intro t key cached recorded
    obtain ⟨process, member, -⟩ := recorded
    rw [fresh.1] at member
    cases member

end Steps

/-- Two requests that share an entry of the cache: one org, one digest of the canonical form. -/
def SharesEntry (lib : Library) (p p' : Prepared) : Prop :=
  p'.identity.orgID = p.identity.orgID ∧ ∃ canon canon', lib.canonicalize p.req = some canon ∧
    lib.canonicalize p'.req = some canon' ∧ lib.sha256Hex canon' = lib.sha256Hex canon

theorem exactKey_inj {lib : Library} (hex : lib.HexDigests) {org org' canon canon' : String}
    (same : exactKey lib org canon = exactKey lib org' canon') :
    org = org' ∧ lib.sha256Hex canon = lib.sha256Hex canon' := by
  have cut : org.toList ++ ':' :: (lib.sha256Hex canon).toList =
      org'.toList ++ ':' :: (lib.sha256Hex canon').toList := by
    have texts := congrArg String.toList same
    unfold exactKey at texts
    simpa using texts
  have flipped := congrArg List.reverse cut
  simp only [List.reverse_append, List.reverse_cons, List.append_assoc, List.singleton_append]
    at flipped
  have digits : ∀ canon, ∀ c ∈ (lib.sha256Hex canon).toList.reverse, (c != ':') = true := by
    intro canon c member
    refine bne_iff_ne.mpr ?_
    rintro rfl
    exact hex.colon canon (List.mem_reverse.mp member)
  have ends := congrArg (List.takeWhile (· != ':')) flipped
  rw [List.takeWhile_append_of_pos (digits canon), List.takeWhile_append_of_pos (digits canon')]
    at ends
  have digest : (lib.sha256Hex canon).toList = (lib.sha256Hex canon').toList := by
    simpa using ends
  rw [digest] at cut
  exact ⟨String.toList_inj.mp (List.append_cancel_right cut), String.toList_inj.mp digest⟩

theorem cacheKey_shares {deps : ChatDeps} (hex : deps.lib.HexDigests) {p p' : Prepared}
    {key : String} (mine : cacheKey deps p = some key) (theirs : cacheKey deps p' = some key) :
    SharesEntry deps.lib p p' := by
  unfold cacheKey at mine theirs
  split at mine
  · split at theirs
    · obtain ⟨canon, canonical, rfl⟩ := Option.map_eq_some_iff.mp mine
      obtain ⟨canon', canonical', same⟩ := Option.map_eq_some_iff.mp theirs
      obtain ⟨org, digest⟩ := exactKey_inj hex same
      exact ⟨org, canon, canon', canonical, canonical', digest⟩
    · cases theirs
  · cases mine

/-- A hint is applied up to the operator's limit. -/
theorem prepare_ttl {deps : ChatDeps} {r : Request} {p : Prepared} {d : Duration}
    (ready : prepare deps r = .ok p) (hint : p.ttlOverride = some d) :
    d.toInt ≤ deps.cacheMaxClientTTL.toInt := by
  obtain ⟨raw, resolved⟩ : ∃ raw,
      resolveCacheTTLOverride deps.lib raw deps.cacheMaxClientTTL = .ok p.ttlOverride := by
    unfold prepare at ready
    repeat' split at ready
    all_goals cases ready
    exact ⟨_, by assumption⟩
  rw [hint] at resolved
  unfold resolveCacheTTLOverride at resolved
  repeat' split at resolved
  · cases resolved
  · cases resolved
  · cases resolved
    exact le_rfl
  · rename_i _ _ _ _ within_
    cases resolved
    exact not_lt.mp fun beyond => within_ (Int64.lt_iff_toInt_lt.mpr beyond)

section Hits
variable {store : Exact.Store} {deps : ChatDeps} {pool : ChatPool} {r : Request} {t : Int}
  {key : String} {cached : CanonicalResponse}

/-- Every exact hit is sound, in any interleaving of requests with any failures of Redis: the
response was stored by a request of the same org with the same digest of its canonical form,
comes back as it was stored, and is no older than that request's TTL, which the operator's
limits bound. -/
theorem exact_hit_sound (hex : deps.lib.HexDigests) (lasting : 0 < store.ttl) {first : ChatPool}
    (fresh : first.processes = [] ∧ first.shared.strings = fun _ => none)
    (reached : (chats store deps).Reaches (fun _ _ => True) first pool)
    (hit : Recorded (handleChatCompletions deps) pool r
      (t, ⟨.cacheGet key, .ok (some cached)⟩)) :
    ∃ p r' p' s ttlOverride reply, prepare deps r = .ok p ∧ prepare deps r' = .ok p' ∧
      Recorded (handleChatCompletions deps) pool r' (s, ⟨.cacheSet key cached ttlOverride, reply⟩) ∧
      SharesEntry deps.lib p p' ∧ s ≤ t ∧ t ≤ s + (store.lifetime ttlOverride).toInt ∧
      (store.lifetime ttlOverride).toInt ≤ max store.ttl.toInt deps.cacheMaxClientTTL.toInt := by
  have sound := accountable_of_reaches fresh reached
  obtain ⟨process, member, -, recorded⟩ := id hit
  obtain ⟨expiry, ⟨r', s, ttlOverride, reply, stored, until_, before⟩, alive⟩ :=
    sound.hits t key cached ⟨process, member, recorded⟩
  obtain alone | ⟨p, ready, mine⟩ := Recorded.permitted hit
  · cases alone
  obtain alone | ⟨p', ready', theirs, hinted, positive⟩ := Recorded.permitted stored
  · cases alone
  have lives : 0 < store.lifetime ttlOverride := by
    cases ttlOverride with
    | none => exact lasting
    | some d => exact positive d rfl
  refine ⟨p, r', p', s, ttlOverride, reply, ready, ready', stored, cacheKey_shares hex mine theirs,
    before, alive _ ?_, ?_⟩
  · rw [until_, expiryOf, if_pos lives]
  · cases ttlOverride with
    | none => exact le_max_left _ _
    | some d => exact le_max_of_le_right (prepare_ttl ready' hinted.symm)

/-- A response that was just stored is found. -/
theorem get_of_set {strings : Strings} {now : Int} {resp : CanonicalResponse}
    {ttlOverride : Option Duration} (lives : 0 < store.lifetime ttlOverride) :
    store.get .answered (store.set .answered strings now key resp ttlOverride).2 now key =
      .ok (some resp) := by
  have later : now ≤ now + (store.lifetime ttlOverride).toInt := by
    have positive : (0 : Int64).toInt < _ := Int64.lt_iff_toInt_lt.mp lives
    rw [Int64.toInt_zero] at positive
    omega
  have live : (store.set .answered strings now key resp ttlOverride).2.live now key =
      some (marshalResponse resp) := by
    simp [Exact.Store.set, Strings.set, Strings.live, Fate.executes, expiryOf, lives, later]
  rw [Exact.Store.get, live]
  simp only [RateLimit.Fate.err, unmarshal_marshalResponse]

/-- Everything goes well, at time 0. -/
def quietly : Visit :=
  ⟨0, fun _ => false, .answered,
    smooth (calm (fun _ => ⟨.ok ⟨"1", "chat.completion", 0, "large", [], ⟨8, 4, 12⟩⟩, 0⟩)
      (fun _ => ⟨[], none, 0⟩) []) []⟩

/-- A lookup right after a store under its key finds the response. -/
theorem hit_after_store {i j : Nat} {resp : CanonicalResponse} {ttlOverride : Option Duration}
    {f : Option String → ServerM Ended} {g : Except String (Option CanonicalResponse) → ServerM Ended}
    {past past' : List (Int × Event Op Op.Reply)} (traced : Traced (handleChatCompletions deps) pool)
    (storing : pool.processes[i]? = some ⟨.request (.cacheSet key resp ttlOverride) f, past⟩)
    (looking : pool.processes[j]? = some ⟨.request (.cacheGet key) g, past'⟩) (apart : i ≠ j)
    (lives : 0 < store.lifetime ttlOverride) :
    ∃ mid next r t, (chats store deps).step pool (.act i quietly) = some mid ∧
      (chats store deps).step mid (.act j quietly) = some next ∧
      Recorded (handleChatCompletions deps) next r (t, ⟨.cacheGet key, .ok (some resp)⟩) := by
  obtain ⟨mid, -, first, left, others, -⟩ := recording_act (Shelf.serve store) Shelf.clock traced storing quietly
  have there := (others j apart).trans looking
  obtain ⟨next, r, second, -, -, recorded⟩ := recording_act (Shelf.serve store) Shelf.clock
    (traced.step first) there quietly
  have found : (mid.shared.serve store quietly (.cacheGet key)).1 = .ok (some resp) := by
    rw [left]
    simp only [Shelf.serve, Shelf.meet, quietly, Bool.false_eq_true, if_false, max_self, max_assoc]
    exact get_of_set lives
  rw [found] at recorded
  exact ⟨mid, next, r, _, first, second, recorded⟩

def hashed : ChatDeps := { oneProvider with lib := digesting }

/-- What a request is about to do to the exact cache. -/
def nextStore : ServerM Ended → Option (String × CanonicalResponse × Option Duration)
  | .request (.cacheSet key resp ttlOverride) _ => some (key, resp, ttlOverride)
  | _ => none

def nextLookup : ServerM Ended → Option String
  | .request (.cacheGet key) _ => some key
  | _ => none

theorem nextStore_some {q : ServerM Ended} {resp : CanonicalResponse} {ttlOverride : Option Duration}
    (h : nextStore q = some (key, resp, ttlOverride)) :
    ∃ f, q = .request (.cacheSet key resp ttlOverride) f := by
  unfold nextStore at h
  split at h
  · cases h
    exact ⟨_, rfl⟩
  · cases h

theorem nextLookup_some {q : ServerM Ended} (h : nextLookup q = some key) :
    ∃ g, q = .request (.cacheGet key) g := by
  unfold nextLookup at h
  split at h
  · cases h
    exact ⟨_, rfl⟩
  · cases h

end Hits

/-- Two equal requests: the first is about to store its answer, the second to look it up. -/
def together : Option ChatPool :=
  (chats ⟨60⟩ hashed).run (fun _ _ => true) ⟨⟨0, fun _ => none⟩, []⟩
    (.start (asked hello) :: .start (asked hello) ::
      (List.replicate 2 (.act 1 quietly) ++ List.replicate 14 (.act 0 quietly)))

theorem second_request_hit_sound :
    ∃ (pool : ChatPool) (r r' : Request) (t s : Int) (key : String) (cached : CanonicalResponse)
      (ttlOverride : Option Duration) (reply : Option String),
      Recorded (handleChatCompletions hashed) pool r (t, ⟨.cacheGet key, .ok (some cached)⟩) ∧
      Recorded (handleChatCompletions hashed) pool r' (s, ⟨.cacheSet key cached ttlOverride, reply⟩) ∧
      t ≤ s + ((⟨60⟩ : Exact.Store).lifetime ttlOverride).toInt := by
  have facts : (together.bind fun pool => (pool.processes[0]?.bind fun a => nextStore a.program).bind
      fun stored => (pool.processes[1]?.bind fun b => nextLookup b.program).map fun key =>
        decide (stored.1 = key ∧ stored.2.2 = none)) = some true := by decide +kernel
  obtain ⟨before, ran, rest⟩ := Option.bind_eq_some_iff.mp facts
  obtain ⟨⟨key, resp, ttlOverride⟩, stores, rest⟩ := Option.bind_eq_some_iff.mp rest
  obtain ⟨key', looks, same⟩ := Option.map_eq_some_iff.mp rest
  obtain ⟨rfl, plain⟩ := of_decide_eq_true same
  cases plain
  obtain ⟨⟨a, past⟩, first, storing⟩ := Option.bind_eq_some_iff.mp stores
  obtain ⟨⟨b, past'⟩, second, looking⟩ := Option.bind_eq_some_iff.mp looks
  obtain ⟨f, rfl⟩ := nextStore_some storing
  obtain ⟨g, rfl⟩ := nextLookup_some looking
  have reached : (chats ⟨60⟩ hashed).Reaches (fun _ _ => True) ⟨⟨0, fun _ => none⟩, []⟩ before :=
    (System.Reaches.of_run ran).mono fun _ _ _ => trivial
  have accountable := accountable_of_reaches ⟨rfl, rfl⟩ reached
  have lives : 0 < (⟨60⟩ : Exact.Store).lifetime none := by decide
  obtain ⟨mid, pool, r, t, one, two, hit⟩ :=
    hit_after_store accountable.traced first second (by decide) lives
  obtain ⟨p, r', p', s, ttlOverride, reply, -, -, stored, -, -, young, -⟩ :=
    exact_hit_sound digesting_hexDigests (by decide) ⟨rfl, rfl⟩
      ((reached.step trivial one).step trivial two) hit
  exact ⟨pool, r, r', t, s, key, resp, ttlOverride, reply, hit, stored, young⟩

end Gateway.Server
