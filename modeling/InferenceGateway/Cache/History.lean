import InferenceGateway.Cache.Semantic

/-! What a Tier-2 hit can come from. A history keeps, beside the store, every Set there was,
the keys evicted on the store's own line and what is on disk; a restart loads the snapshot
into a fresh store and goes on from there. -/
namespace Gateway.Semantic
open Gateway.Providers Gateway.Embedding
open Binary64 (Value)

/-- One call of Set, with the key it drew. -/
structure Stored where
  key : String
  query : Query
  response : CanonicalResponse
  expiresAt : Int

def Stored.entry (set : Stored) : Entry :=
  { response := set.response, tenantID := set.query.tenantID, model := set.query.model
    toolsCanonical := set.query.toolsCanonical
    responseFormatCanonical := set.query.responseFormatCanonical
    vector := set.query.vector, expiresAt := set.expiresAt }

inductive Input where
  | set (q : Query) (resp : CanonicalResponse) (ttlOverride : Option Duration) (key : String)
      (now : Int)
  | get (q : Query) (now : Int) (proposed : List Node)
  | saveToDisk (persisted : List Persisted)
  | restart (maxVectors : Nat) (threshold : Value) (ttl : Duration) (now : Int)

/-- `disk` is the last snapshot with the keys evicted before it was taken. -/
structure History where
  store : Store
  sets : List Stored
  evicted : List String
  disk : List Persisted × List String

namespace History

def start (maxVectors : Nat) (threshold : Value) (ttl : Duration) : History :=
  ⟨newStore maxVectors threshold ttl, [], [], [], []⟩

def step (h : History) : Input → History
  | .set q resp ttlOverride key now =>
      let store := h.store.set q resp ttlOverride key now
      { h with
        store
        sets := ⟨key, q, resp, h.store.expiry ttlOverride now⟩ :: h.sets
        evicted := h.evicted ++ (key :: h.store.entries.keys).filter (· ∉ store.entries.keys) }
  | .get q now proposed => { h with store := (h.store.get q now proposed).2 }
  | .saveToDisk persisted => { h with disk := (persisted, h.evicted) }
  | .restart maxVectors threshold ttl now =>
      { h with
        store := (newStore maxVectors threshold ttl).loadFromDisk h.disk.1 now
        evicted := h.disk.2 }

/-- uuid.NewString never repeats, and a snapshot lists the entries in some order. -/
def Admits (h : History) : Input → Prop
  | .set _ _ _ key _ => key ∉ h.sets.map Stored.key
  | .saveToDisk persisted => persisted.Perm h.store.saveToDisk
  | .get _ _ _ | .restart _ _ _ _ => True

inductive Run : History → Prop
  | start (maxVectors : Nat) (threshold : Value) (ttl : Duration) :
      Run (start maxVectors threshold ttl)
  | step {h : History} {input : Input} (run : Run h) (admitted : h.Admits input) :
      Run (h.step input)

end History

/-- The entry under `key` is the one some Set of `sets` made. -/
def Made (sets : List Stored) (key : String) (e : Entry) : Prop :=
  ∃ set ∈ sets, set.key = key ∧ set.entry = e

/-- Every entry and every node of the graph, orphans included, is that of a Set. -/
structure Store.Backed (s : Store) (sets : List Stored) : Prop where
  entries : ∀ key e, s.entries.lookup key = some e → Made sets key e
  nodes : ∀ node ∈ s.graph, ∃ e, Made sets node.key e ∧ e.vector = node.value

theorem Made.mono {sets more : List Stored} {key : String} {e : Entry} (made : Made sets key e)
    (sub : sets ⊆ more) : Made more key e :=
  made.imp fun _ => And.imp_left (sub ·)

namespace Store

theorem newStore_backed (maxVectors : Nat) (threshold : Value) (ttl : Duration)
    (sets : List Stored) : (newStore maxVectors threshold ttl).Backed sets :=
  ⟨fun _ _ known => by simp [newStore] at known, nofun⟩

theorem Backed.push {s : Store} {sets : List Stored} {key : String} {e : Entry}
    (backed : s.Backed sets) (made : Made sets key e) : (s.push key e).Backed sets where
  entries := by
    intro other found known
    by_cases same : other = key
    · subst same
      rw [Store.push, AList.lookup_insert, Option.some.injEq] at known
      exact known ▸ made
    · rw [Store.push, AList.lookup_insert_ne same] at known
      exact backed.entries other found known
  nodes := by
    intro node member
    rcases List.mem_append.mp member with old | new
    · exact backed.nodes node old
    · cases List.mem_singleton.mp new
      exact ⟨e, made, rfl⟩

theorem Backed.rebuildGraphIfNeeded {s : Store} {sets : List Stored} (backed : s.Backed sets) :
    s.rebuildGraphIfNeeded.Backed sets where
  entries := by simpa only [rebuildGraphIfNeeded_entries] using backed.entries
  nodes := by
    unfold Store.rebuildGraphIfNeeded
    split
    · exact backed.nodes
    · intro node member
      obtain ⟨⟨key, e⟩, listed, rfl⟩ := List.mem_map.mp member
      exact ⟨e, backed.entries key e (AList.mem_lookup_iff.mpr listed), rfl⟩

theorem Backed.evictOldest {s : Store} {sets : List Stored} (backed : s.Backed sets) :
    s.evictOldest.Backed sets := by
  unfold Store.evictOldest
  split
  · exact backed
  · rename_i key _
    refine Backed.rebuildGraphIfNeeded ⟨fun other e known => ?_, backed.nodes⟩
    have kept : other ≠ key := by
      rintro rfl
      simp at known
    rw [AList.lookup_erase_ne kept] at known
    exact backed.entries other e known

theorem Backed.evictAbove {sets : List Stored} (fuel : Nat) {s : Store}
    (backed : s.Backed sets) : (evictAbove fuel s).Backed sets :=
  evictAbove_keeps (P := (Backed · sets)) (fun _ => Backed.evictOldest) fuel backed

theorem Backed.mono {s : Store} {sets more : List Stored} (backed : s.Backed sets)
    (sub : sets ⊆ more) : s.Backed more where
  entries key e known := (backed.entries key e known).mono sub
  nodes node member := (backed.nodes node member).imp fun _ => And.imp_left (Made.mono · sub)

theorem Backed.loadFromDisk {sets : List Stored} {persisted : List Persisted} {s : Store}
    {now : Int} (backed : s.Backed sets)
    (made : ∀ pe ∈ persisted, Made sets pe.key pe.entry) :
    (s.loadFromDisk persisted now).Backed sets := by
  induction persisted generalizing s with
  | nil => exact backed
  | cons pe rest ih =>
      rw [List.forall_mem_cons] at made
      rw [loadFromDisk_cons]
      unfold load
      split
      · exact ih backed made.2
      · exact ih (backed.push made.1) made.2

theorem Backed.made_of_mem {s : Store} {sets : List Stored} {key : String}
    (backed : s.Backed sets) (known : key ∈ s.entries) : key ∈ sets.map Stored.key := by
  obtain ⟨e, found⟩ := Option.isSome_iff_exists.mp (AList.lookup_isSome.mpr known)
  obtain ⟨set, member, same, -⟩ := backed.entries key e found
  exact List.mem_map.mpr ⟨set, member, same⟩

end Store

namespace History

structure Traced (h : History) : Prop where
  unique : (h.sets.map Stored.key).Nodup
  backed : h.store.Backed h.sets
  linked : h.store.Linked
  kept : ∀ key ∈ h.store.entries, key ∉ h.evicted
  evicted : h.evicted ⊆ h.sets.map Stored.key
  persisted : ∀ pe ∈ h.disk.1, Made h.sets pe.key pe.entry ∧ pe.key ∉ h.disk.2
  persistedUnique : (h.disk.1.map Persisted.key).Nodup
  persistedEvicted : h.disk.2 ⊆ h.sets.map Stored.key

theorem start_traced (maxVectors : Nat) (threshold : Value) (ttl : Duration) :
    (start maxVectors threshold ttl).Traced where
  unique := List.nodup_nil
  backed := Store.newStore_backed maxVectors threshold ttl []
  linked := List.Perm.refl []
  kept := nofun
  evicted := nofun
  persisted := nofun
  persistedUnique := List.nodup_nil
  persistedEvicted := nofun

theorem Traced.set {h : History} {q : Query} {resp : CanonicalResponse}
    {ttlOverride : Option Duration} {key : String} {now : Int} (traced : h.Traced)
    (fresh : key ∉ h.sets.map Stored.key) :
    (h.step (.set q resp ttlOverride key now)).Traced := by
  have more : h.sets ⊆ (h.step (.set q resp ttlOverride key now)).sets :=
    List.subset_cons_self _ _
  have moreKeys : h.sets.map Stored.key ⊆
      (h.step (.set q resp ttlOverride key now)).sets.map Stored.key := List.map_subset _ more
  have new : key ∉ h.store.entries := fun known => fresh (traced.backed.made_of_mem known)
  have backed : (h.store.set q resp ttlOverride key now).Backed
      (h.step (.set q resp ttlOverride key now)).sets :=
    ((traced.backed.mono more).push
      ⟨⟨key, q, resp, h.store.expiry ttlOverride now⟩, List.mem_cons_self, rfl, rfl⟩).evictAbove _
  constructor
  case unique => exact List.nodup_cons.mpr ⟨fresh, traced.unique⟩
  case backed => exact backed
  case linked => exact (traced.linked.set new).1
  case kept =>
    intro other known gone
    rcases List.mem_append.mp gone with before | now_evicted
    · rcases Store.mem_push.mp (Store.mem_of_mem_evictAbove _ known) with rfl | old
      · exact fresh (traced.evicted before)
      · exact traced.kept other old before
    · exact of_decide_eq_true (List.mem_filter.mp now_evicted).2 known
  case evicted =>
    intro other gone
    rcases List.mem_append.mp gone with before | now_evicted
    · exact moreKeys (traced.evicted before)
    · rcases List.mem_cons.mp (List.mem_filter.mp now_evicted).1 with rfl | old
      · exact List.mem_cons_self
      · exact moreKeys (traced.backed.made_of_mem old)
  case persisted => exact fun pe listed => (traced.persisted pe listed).imp_left (·.mono more)
  case persistedUnique => exact traced.persistedUnique
  case persistedEvicted => exact fun _ gone => moreKeys (traced.persistedEvicted gone)

theorem Traced.get {h : History} {q : Query} {now : Int} {proposed : List Node}
    (traced : h.Traced) : (h.step (.get q now proposed)).Traced := by
  change Traced { h with store := (h.store.get q now proposed).2 }
  rcases h.store.get_cases q now proposed with same | ⟨key, known, touched⟩
  · rw [same]
    exact traced
  · rw [touched]
    exact ⟨traced.unique, ⟨traced.backed.entries, traced.backed.nodes⟩,
      traced.linked.moveToFront known, traced.kept, traced.evicted, traced.persisted,
      traced.persistedUnique, traced.persistedEvicted⟩

theorem Traced.saveToDisk {h : History} {persisted : List Persisted} (traced : h.Traced)
    (snapshot : persisted.Perm h.store.saveToDisk) :
    (h.step (.saveToDisk persisted)).Traced where
  unique := traced.unique
  backed := traced.backed
  linked := traced.linked
  kept := traced.kept
  evicted := traced.evicted
  persisted := by
    intro pe listed
    obtain ⟨⟨key, e⟩, known, rfl⟩ := List.mem_map.mp (snapshot.mem_iff.mp listed)
    have found : h.store.entries.lookup key = some e := AList.mem_lookup_iff.mpr known
    refine ⟨traced.backed.entries key e found, traced.kept key ?_⟩
    rw [← AList.lookup_isSome, found]
    rfl
  persistedUnique := by
    have keys : h.store.saveToDisk.map Persisted.key = h.store.entries.keys := by
      simp [Store.saveToDisk, AList.keys, List.keys, Function.comp_def]
    exact (snapshot.map Persisted.key).nodup_iff.mpr (keys ▸ h.store.entries.keys_nodup)
  persistedEvicted := traced.evicted

theorem Traced.restart {h : History} {maxVectors : Nat} {threshold : Value} {ttl : Duration}
    {now : Int} (traced : h.Traced) :
    (h.step (.restart maxVectors threshold ttl now)).Traced where
  unique := traced.unique
  backed := (Store.newStore_backed maxVectors threshold ttl h.sets).loadFromDisk
    fun pe listed => (traced.persisted pe listed).1
  linked := Store.Linked.loadFromDisk (List.Perm.refl []) traced.persistedUnique
    fun _ _ => AList.notMem_empty _
  kept := by
    intro key known
    rcases Store.mem_of_mem_loadFromDisk known with old | ⟨pe, listed, rfl⟩
    · exact absurd old (AList.notMem_empty key)
    · exact (traced.persisted pe listed).2
  evicted := traced.persistedEvicted
  persisted := traced.persisted
  persistedUnique := traced.persistedUnique
  persistedEvicted := traced.persistedEvicted

theorem Run.traced {h : History} (run : Run h) : h.Traced := by
  induction run with
  | start maxVectors threshold ttl => exact start_traced maxVectors threshold ttl
  | @step h input run admitted ih =>
      cases input with
      | set q resp ttlOverride key now => exact ih.set admitted
      | get q now proposed => exact ih.get
      | saveToDisk persisted => exact ih.saveToDisk admitted
      | restart maxVectors threshold ttl now => exact ih.restart

/-- The store is never left above its bound by Set. -/
theorem Run.set_bounded {h : History} (run : Run h) {q : Query} {resp : CanonicalResponse}
    {ttlOverride : Option Duration} {key : String} {now : Int}
    (fresh : key ∉ h.sets.map Stored.key) :
    (h.store.set q resp ttlOverride key now).entries.keys.length ≤ h.store.maxVectors :=
  (run.traced.linked.set fun known => fresh (run.traced.backed.made_of_mem known)).2

end History

/-- `set` is where a hit of `q` at `now` comes from. -/
structure Stored.Serves (set : Stored) (h : History) (q : Query) (now : Int)
    (resp : CanonicalResponse) (sim : Value) : Prop where
  response : set.response = resp
  tenantID : set.query.tenantID = q.tenantID
  model : set.query.model = q.model
  toolsCanonical : set.query.toolsCanonical = q.toolsCanonical
  responseFormatCanonical : set.query.responseFormatCanonical = q.responseFormatCanonical
  live : set.key ∉ h.evicted
  unexpired : now ≤ set.expiresAt
  similar : cosineSimilarity q.vector set.query.vector = .ok sim

/-- A hit is sound: some Set serves it, at a similarity no lower than the threshold. -/
def History.Sound (h : History) (q : Query) (now : Int) (resp : CanonicalResponse)
    (sim : Value) : Prop :=
  (∃ set ∈ h.sets, set.Serves h q now resp sim) ∧ h.store.threshold.le sim = true

namespace History

/-- A node whose key is live has the vector of its entry. -/
theorem Traced.node_set {h : History} (traced : h.Traced) {node : Node} (inGraph : node ∈ h.store.graph)
    {e : Entry} (known : h.store.entries.lookup node.key = some e) :
    ∃ set ∈ h.sets, set.key = node.key ∧ set.entry = e ∧ e.vector = node.value := by
  obtain ⟨set, member, key, rfl⟩ := traced.backed.entries node.key e known
  obtain ⟨_, ⟨other, otherMember, otherKey, rfl⟩, vector⟩ := traced.backed.nodes node inGraph
  have same : other = set :=
    List.inj_on_of_nodup_map traced.unique otherMember member (otherKey.trans key.symm)
  subst same
  exact ⟨other, member, key, rfl, vector⟩

theorem Traced.serves {h : History} {q : Query} {now : Int} {proposed : List Node}
    {found : Found} (traced : h.Traced)
    (scanned : h.store.scan q now (h.store.search proposed) = .ok (some found)) :
    ∃ set ∈ h.sets, set.Serves h q now found.response found.sim := by
  obtain ⟨node, searched, e, known, -, response, similar, -, unexpired, tenant, model, tools,
    format⟩ := Store.scan_found scanned
  have inGraph : node ∈ h.store.graph := of_decide_eq_true (List.mem_filter.mp searched).2
  obtain ⟨set, member, key, rfl, vector⟩ := traced.node_set inGraph known
  have live : node.key ∈ h.store.entries := by
    rw [← AList.lookup_isSome, known]
    rfl
  refine ⟨set, member, response.symm, tenant, model, tools, format, ?_, unexpired, ?_⟩
  · exact key ▸ traced.kept node.key live
  · exact (congrArg (cosineSimilarity q.vector) vector).trans similar

theorem hit_notBelow {h : History} {q : Query} {now : Int} {proposed : List Node}
    {resp : CanonicalResponse} {sim : Value}
    (hit : (h.store.get q now proposed).1 = .ok (some (resp, sim))) :
    sim.lt h.store.threshold = false := by
  obtain ⟨found, scanned, rfl, rfl⟩ := Store.get_hit hit
  obtain ⟨node, -, e, -, -, -, -, notBelow, -⟩ := Store.scan_found scanned
  exact notBelow

theorem hit_sound_iff {h : History} (run : Run h) {q : Query} {now : Int} {proposed : List Node}
    {resp : CanonicalResponse} {sim : Value}
    (hit : (h.store.get q now proposed).1 = .ok (some (resp, sim))) :
    h.Sound q now resp sim ↔ sim ≠ .nan ∧ h.store.threshold ≠ .nan := by
  rw [← Binary64.Value.le_iff_of_not_lt (hit_notBelow hit)]
  obtain ⟨found, scanned, rfl, rfl⟩ := Store.get_hit hit
  exact and_iff_right (run.traced.serves scanned)

/-- A single Set serves every query that its guards and the threshold let through. -/
theorem exists_hit {threshold sim : Value} (q₁ q₂ : Query) (resp : CanonicalResponse)
    (tenantID : q₁.tenantID = q₂.tenantID) (model : q₁.model = q₂.model)
    (tools : q₁.toolsCanonical = q₂.toolsCanonical)
    (format : q₁.responseFormatCanonical = q₂.responseFormatCanonical)
    (similar : cosineSimilarity q₂.vector q₁.vector = .ok sim)
    (notBelow : sim.lt threshold = false) :
    ∃ (h : History) (set : Stored) (proposed : List Node), Run h ∧ h.store.threshold = threshold ∧
      set ∈ h.sets ∧ set.query = q₁ ∧ set.response = resp ∧
      (h.store.get q₂ 0 proposed).1 = .ok (some (resp, sim)) ∧ set.Serves h q₂ 0 resp sim := by
  refine ⟨(start 1 threshold 0).step (.set q₁ resp none "k1" 0), ⟨"k1", q₁, resp, 0⟩,
    [⟨"k1", q₁.vector⟩], ?_, rfl, List.mem_cons_self, rfl, rfl, ?_, ?_⟩
  · exact (Run.start _ _ _).step (show _ ∉ _ from List.not_mem_nil)
  · have store : ((start 1 threshold 0).step (.set q₁ resp none "k1" 0)).store =
        (newStore 1 threshold 0).push "k1" (Stored.entry ⟨"k1", q₁, resp, 0⟩) := rfl
    have scanned : ((newStore 1 threshold 0).push "k1" (Stored.entry ⟨"k1", q₁, resp, 0⟩)).scan q₂ 0
        [⟨"k1", q₁.vector⟩] = .ok (some ⟨"k1", resp, sim⟩) :=
      Store.scan_cons_found (e := Stored.entry ⟨"k1", q₁, resp, 0⟩) (AList.lookup_insert _) similar
        notBelow (le_refl 0) tenantID model tools format
    have searched : ((newStore 1 threshold 0).push "k1" (Stored.entry ⟨"k1", q₁, resp, 0⟩)).search
        [⟨"k1", q₁.vector⟩] = [⟨"k1", q₁.vector⟩] := by
      simp [Store.search, Store.push, newStore, Stored.entry]
    have some_entry : ((newStore 1 threshold 0).push "k1"
        (Stored.entry ⟨"k1", q₁, resp, 0⟩)).entries.keys.length ≠ 0 := nofun
    rw [store, Store.get, if_neg some_entry, searched, scanned]
  · exact ⟨rfl, tenantID, model, tools, format, List.not_mem_nil, le_rfl, similar⟩

def answer : CanonicalResponse := ⟨"abc", "chat.completion", 0, "gpt", [], ⟨1, 1, 2⟩⟩

/-- The configured threshold 0.95 as a float32. -/
def defaultThreshold : Value := Ieee.binary32.round (95 / 100)

/-- One Set of `vector` at time 0. -/
def filled (vector : Vector) : History :=
  (start 2 defaultThreshold 10).step (.set { tenantID := "org", vector } answer none "k1" 0)

/-- The same, saved, and loaded at time 1 by the next process. -/
def restarted (vector : Vector) : History :=
  ((filled vector).step (.saveToDisk (filled vector).store.saveToDisk)).step
    (.restart 2 defaultThreshold 10 1)

theorem restarted_run (vector : Vector) : Run (restarted vector) := by
  have set : Run (filled vector) := (Run.start _ _ _).step (show _ ∉ _ from List.not_mem_nil)
  have saved : Run ((filled vector).step (.saveToDisk (filled vector).store.saveToDisk)) :=
    set.step (show List.Perm _ _ from List.Perm.refl _)
  exact saved.step (show True from trivial)

theorem unit_vector_hit_sound :
    Run (restarted [.finite 1, .finite 0]) ∧
      ((restarted [.finite 1, .finite 0]).store.get
        { tenantID := "org", vector := [.finite 1, .finite 0] } 2
        [⟨"k1", [.finite 1, .finite 0]⟩]).1 = .ok (some (answer, .finite 1)) ∧
      (restarted [.finite 1, .finite 0]).Sound
        { tenantID := "org", vector := [.finite 1, .finite 0] } 2 answer (.finite 1) := by
  have run := restarted_run [.finite 1, .finite 0]
  have hit : ((restarted [.finite 1, .finite 0]).store.get
      { tenantID := "org", vector := [.finite 1, .finite 0] } 2
      [⟨"k1", [.finite 1, .finite 0]⟩]).1 = .ok (some (answer, .finite 1)) := by decide +kernel
  exact ⟨run, hit, (hit_sound_iff run hit).mpr ⟨nofun, by decide +kernel⟩⟩

/-- Both products overflow, their sum is not a number, and no comparison stops it. -/
theorem overflowing_vector_hits :
    Run (restarted [.finite (2 ^ 70), .finite (2 ^ 70)]) ∧
      ((restarted [.finite (2 ^ 70), .finite (2 ^ 70)]).store.get
        { tenantID := "org", vector := [.finite (2 ^ 70), .finite (-2 ^ 70)] } 2
        [⟨"k1", [.finite (2 ^ 70), .finite (2 ^ 70)]⟩]).1 = .ok (some (answer, .nan)) ∧
      ¬ (restarted [.finite (2 ^ 70), .finite (2 ^ 70)]).Sound
        { tenantID := "org", vector := [.finite (2 ^ 70), .finite (-2 ^ 70)] } 2 answer .nan := by
  refine ⟨restarted_run _, by decide +kernel, fun sound => ?_⟩
  have enough := sound.2
  rw [Binary64.Value.le_nan] at enough
  cases enough

end History

end Gateway.Semantic
