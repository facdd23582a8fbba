import InferenceGateway.Cache.History
import InferenceGateway.Cache.Recency

/-! Whether Get finds what it should, when the graph is searched without error: the answer
is the first part of a ranking of all its nodes by similarity. -/
namespace Gateway.Semantic
open Gateway.Providers Gateway.Embedding
open Binary64 (Value)

def searchK : Nat := 20

namespace Store

/-- A live, unexpired entry with the query's guard rails, and its similarity. -/
structure Matches (s : Store) (q : Query) (now : Int) (key : String) (e : Entry) (sim : Value) :
    Prop where
  live : s.entries.lookup key = some e
  unexpired : now ≤ e.expiresAt
  tenantID : e.tenantID = q.tenantID
  model : e.model = q.model
  toolsCanonical : e.toolsCanonical = q.toolsCanonical
  responseFormatCanonical : e.responseFormatCanonical = q.responseFormatCanonical
  similar : cosineSimilarity q.vector e.vector = .ok sim

/-- A match at or above the threshold. -/
structure Qualifies (s : Store) (q : Query) (now : Int) (key : String) (e : Entry) (sim : Value) :
    Prop extends s.Matches q now key e sim where
  enough : s.threshold.le sim = true

/-- The nodes in an order of decreasing similarity, which they all have. -/
structure Ranked (s : Store) (q : Query) (ranking : List Node) : Prop where
  all : ranking.Perm s.graph
  measured : ∀ node ∈ ranking, ∃ sim, cosineSimilarity q.vector node.value = .ok sim ∧ sim ≠ .nan
  decreasing : ranking.Pairwise fun near far => ∀ a b,
    cosineSimilarity q.vector near.value = .ok a → cosineSimilarity q.vector far.value = .ok b →
      b.le a = true

/-- The answer is the nearest qualifying entry, and a miss if every match is below the
threshold; other entries and nodes do not show in it. -/
def Finds (s : Store) (q : Query) (now : Int)
    (answer : Except Panic (Option (CanonicalResponse × Value))) : Prop :=
  ((∃ key e sim, s.Qualifies q now key e sim) →
    ∃ key e sim, s.Qualifies q now key e sim ∧ answer = .ok (some (e.response, sim)) ∧
      ∀ key' e' sim', s.Qualifies q now key' e' sim' → sim'.le sim = true) ∧
  ((∀ key e sim, s.Matches q now key e sim → sim.lt s.threshold = true) → answer = .ok none)

/-- The graph's nodes carry the vectors of the entries they have. -/
def Labelled (s : Store) : Prop :=
  ∀ node ∈ s.graph, ∀ e, s.entries.lookup node.key = some e → e.vector = node.value

variable {s : Store} {q : Query} {now : Int} {ranking nodes : List Node}

theorem search_of_subset (inside : ∀ node ∈ nodes, node ∈ s.graph) : s.search nodes = nodes :=
  List.filter_eq_self.mpr fun node member => decide_eq_true (inside node member)

/-- The loop goes past a node that is neither below the threshold nor a match. -/
theorem scan_cons_skip {node : Node} {rest : List Node}
    (passed : ∀ e, s.entries.lookup node.key = some e →
      ∃ sim, cosineSimilarity q.vector node.value = .ok sim ∧ sim.lt s.threshold = false ∧
        ¬ (now ≤ e.expiresAt ∧ e.tenantID = q.tenantID ∧ e.model = q.model ∧
          e.toolsCanonical = q.toolsCanonical ∧
          e.responseFormatCanonical = q.responseFormatCanonical)) :
    s.scan q now (node :: rest) = s.scan q now rest := by
  rw [scan]
  cases known : s.entries.lookup node.key with
  | none => rfl
  | some e =>
      obtain ⟨sim, similar, notBelow, other⟩ := passed e known
      simp only [similar, notBelow, Bool.false_eq_true, if_false]
      split
      · rfl
      · split
        · rfl
        · rename_i live same
          push Not at live same
          exact absurd ⟨live, same⟩ other

/-- Measured nodes make the loop end without a panic. -/
theorem scan_ok (measured : ∀ node ∈ nodes, ∃ sim, cosineSimilarity q.vector node.value = .ok sim ∧
    sim ≠ .nan) : ∃ result, s.scan q now nodes = .ok result := by
  induction nodes with
  | nil => exact ⟨none, rfl⟩
  | cons node rest ih =>
      rw [List.forall_mem_cons] at measured
      obtain ⟨result, later⟩ := ih measured.2
      obtain ⟨sim, similar, -⟩ := measured.1
      rw [scan]
      cases s.entries.lookup node.key with
      | none => exact ⟨result, later⟩
      | some e =>
          simp only [similar]
          split_ifs
          · exact ⟨none, rfl⟩
          · exact ⟨result, later⟩
          · exact ⟨result, later⟩
          · exact ⟨_, rfl⟩

theorem Matches.entries_ne_nil {key : String} {e : Entry} {sim : Value}
    (h : s.Matches q now key e sim) : ¬ s.entries.keys.length = 0 := by
  intro empty
  have known : key ∈ s.entries.keys :=
    AList.mem_keys.mp (AList.lookup_isSome.mp (by rw [h.live]; rfl))
  rw [List.length_eq_zero_iff.mp empty] at known
  cases known

/-- The node whose key is a match has the match's similarity. -/
theorem Matches.similar_node {node : Node} {e : Entry} {sim : Value} (labelled : s.Labelled)
    (inGraph : node ∈ s.graph) (h : s.Matches q now node.key e sim) :
    cosineSimilarity q.vector node.value = .ok sim :=
  labelled node inGraph e h.live ▸ h.similar

/-- The loop settles on the first qualifying node of a ranking, which is a nearest one. -/
theorem scan_first (later : List Node) (labelled : s.Labelled)
    (inside : ∀ node ∈ nodes ++ later, node ∈ s.graph)
    (measured : ∀ node ∈ nodes ++ later, ∃ sim,
      cosineSimilarity q.vector node.value = .ok sim ∧ sim ≠ .nan)
    (decreasing : (nodes ++ later).Pairwise fun near far => ∀ a b,
      cosineSimilarity q.vector near.value = .ok a → cosineSimilarity q.vector far.value = .ok b →
        b.le a = true)
    (some_node : ∃ node ∈ nodes, ∃ e sim, s.Qualifies q now node.key e sim) :
    ∃ node ∈ nodes, ∃ e sim, s.Qualifies q now node.key e sim ∧
      s.scan q now nodes = .ok (some ⟨node.key, e.response, sim⟩) ∧
      ∀ other ∈ nodes ++ later, ∀ e' sim', s.Qualifies q now other.key e' sim' →
        sim'.le sim = true := by
  induction nodes with
  | nil => simp at some_node
  | cons node rest ih =>
      rw [List.cons_append, List.forall_mem_cons] at inside measured
      rw [List.cons_append, List.pairwise_cons] at decreasing
      by_cases first : ∃ e sim, s.Qualifies q now node.key e sim
      · obtain ⟨e, sim, qualifies⟩ := first
        have similar := qualifies.similar_node labelled inside.1
        have number := (Binary64.Value.le_ne_nan qualifies.enough).2
        refine ⟨node, List.mem_cons_self, e, sim, qualifies, ?_, ?_⟩
        · refine scan_cons_found qualifies.live similar ?_ qualifies.unexpired qualifies.tenantID
            qualifies.model qualifies.toolsCanonical qualifies.responseFormatCanonical
          exact Binary64.Value.not_lt_of_le qualifies.enough (Binary64.Value.le_self number)
        · intro other member e' sim' also
          rcases List.mem_cons.mp member with rfl | further
          · have twice := also.similar_node labelled inside.1
            rw [similar] at twice
            cases twice
            exact Binary64.Value.le_self number
          · exact decreasing.1 other further sim sim' similar
              (also.similar_node labelled (inside.2 other further))
      · have rest_node : ∃ node ∈ rest, ∃ e sim, s.Qualifies q now node.key e sim := by
          obtain ⟨found, member, e, sim, qualifies⟩ := some_node
          rcases List.mem_cons.mp member with rfl | further
          · exact absurd ⟨e, sim, qualifies⟩ first
          · exact ⟨found, further, e, sim, qualifies⟩
        obtain ⟨found, member, e, sim, qualifies, scanned, nearest⟩ :=
          ih inside.2 measured.2 decreasing.2 rest_node
        have far := qualifies.similar_node labelled (inside.2 found (List.mem_append_left _ member))
        obtain ⟨near, similar, number⟩ := measured.1
        have closer := decreasing.1 found (List.mem_append_left _ member) near sim similar far
        have notBelow := Binary64.Value.not_lt_of_le qualifies.enough closer
        refine ⟨found, List.mem_cons_of_mem _ member, e, sim, qualifies, ?_, ?_⟩
        · rw [← scanned]
          refine scan_cons_skip ?_
          intro e' known
          refine ⟨near, similar, notBelow, ?_⟩
          rintro ⟨unexpired, tenantID, model, tools, format⟩
          have vector := labelled node inside.1 e' known
          have enough := (Binary64.Value.le_iff_of_not_lt notBelow).mpr
            ⟨number, (Binary64.Value.le_ne_nan qualifies.enough).1⟩
          exact first ⟨e', near, ⟨known, unexpired, tenantID, model, tools, format,
            vector ▸ similar⟩, enough⟩
        · intro other listed e' sim' also
          rcases List.mem_cons.mp listed with rfl | further
          · exact absurd ⟨e', sim', also⟩ first
          · exact nearest other further e' sim' also

/-- A hit comes from a match among the nodes, which is not below the threshold. -/
theorem hit_matches {found : Found} (labelled : s.Labelled)
    (inside : ∀ node ∈ nodes, node ∈ s.graph)
    (scanned : s.scan q now nodes = .ok (some found)) :
    ∃ node ∈ nodes, ∃ e, s.Matches q now node.key e found.sim ∧
      found.sim.lt s.threshold = false ∧ found.response = e.response := by
  obtain ⟨node, member, e, known, -, response, similar, notBelow, unexpired, tenantID, model,
    tools, format⟩ := scan_found scanned
  have vector := labelled node (inside node member) e known
  exact ⟨node, member, e, ⟨known, unexpired, tenantID, model, tools, format, vector ▸ similar⟩,
    notBelow, response⟩

/-- A match that is not below the threshold is returned by a search that proposes it alone. -/
theorem Matches.get_alone {key : String} {e : Entry} {sim : Value} (indexes : s.Indexes)
    (h : s.Matches q now key e sim) (notBelow : sim.lt s.threshold = false) :
    (s.get q now [⟨key, e.vector⟩]).1 = .ok (some (e.response, sim)) := by
  have inside : ∀ node ∈ [(⟨key, e.vector⟩ : Node)], node ∈ s.graph := by
    simpa using indexes key e h.live
  have scanned : s.scan q now [⟨key, e.vector⟩] = .ok (some ⟨key, e.response, sim⟩) :=
    scan_cons_found h.live h.similar notBelow h.unexpired h.tenantID h.model h.toolsCanonical
      h.responseFormatCanonical
  rw [get, if_neg h.entries_ne_nil, search_of_subset inside, scanned]

/-- Get finds the nearest qualifying entry exactly if one of the nodes it looks at is
qualifying. -/
theorem get_finds_iff (labelled : s.Labelled) (indexes : s.Indexes) (ranked : s.Ranked q ranking)
    (k : Nat) :
    s.Finds q now (s.get q now (ranking.take k)).1 ↔
      ((∃ key e sim, s.Qualifies q now key e sim) →
        ∃ node ∈ ranking.take k, ∃ e sim, s.Qualifies q now node.key e sim) := by
  have inside : ∀ node ∈ ranking, node ∈ s.graph := fun node member => ranked.all.mem_iff.mp member
  have near : ∀ node ∈ ranking.take k, node ∈ s.graph :=
    fun node member => inside node (List.mem_of_mem_take member)
  have split := List.take_append_drop k ranking
  constructor
  · intro finds some_entry
    obtain ⟨key, e, sim, qualifies, answer, -⟩ := finds.1 some_entry
    obtain ⟨found, scanned, -, same⟩ := get_hit answer
    rw [search_of_subset near] at scanned
    obtain ⟨node, member, e', also, notBelow, -⟩ := hit_matches labelled near scanned
    have numbers := Binary64.Value.le_ne_nan qualifies.enough
    refine ⟨node, member, e', found.sim, also, ?_⟩
    exact (Binary64.Value.le_iff_of_not_lt notBelow).mpr ⟨same ▸ numbers.2, numbers.1⟩
  · intro reached
    refine ⟨?_, ?_⟩
    · intro some_entry
      obtain ⟨node, member, e, sim, qualifies, scanned, nearest⟩ := scan_first (ranking.drop k)
        labelled (by rwa [split]) (by rw [split]; exact ranked.measured)
        (by rw [split]; exact ranked.decreasing) (reached some_entry)
      refine ⟨node.key, e, sim, qualifies, ?_, ?_⟩
      · rw [get, if_neg qualifies.entries_ne_nil, search_of_subset near, scanned]
      · intro key' e' sim' also
        have member' : (⟨key', e'.vector⟩ : Node) ∈ ranking :=
          ranked.all.mem_iff.mpr (indexes key' e' also.live)
        exact nearest ⟨key', e'.vector⟩ (by rwa [split]) e' sim' also
    · intro below
      rw [get]
      split_ifs with empty
      · rfl
      · rw [search_of_subset near]
        obtain ⟨result, scanned⟩ : ∃ result, s.scan q now (ranking.take k) = .ok result :=
          scan_ok fun node member => ranked.measured node (List.mem_of_mem_take member)
        cases result with
        | none => rw [scanned]
        | some found =>
            obtain ⟨node, -, e, matches_, notBelow, -⟩ := hit_matches labelled near scanned
            rw [below _ _ _ matches_] at notBelow
            cases notBelow

theorem Indexes.loadFromDisk {persisted : List Persisted} {s : Store} (h : s.Indexes) (now : Int) :
    (s.loadFromDisk persisted now).Indexes := by
  induction persisted generalizing s with
  | nil => exact h
  | cons pe rest ih => exact ih (h.load now pe)

end Store

namespace History

theorem Run.indexes {h : History} (run : Run h) : h.store.Indexes := by
  induction run with
  | start maxVectors threshold ttl =>
      intro key e known
      simp [History.start, newStore] at known
  | @step h input run admitted ih =>
      cases input with
      | set q resp ttlOverride key now => exact ih.push.evictAbove
      | get q now proposed =>
          change Store.Indexes (h.store.get q now proposed).2
          rcases h.store.get_cases q now proposed with same | ⟨key, -, touched⟩
          · rw [same]
            exact ih
          · rw [touched]
            exact ih
      | saveToDisk persisted => exact ih
      | restart maxVectors threshold ttl now =>
          refine Store.Indexes.loadFromDisk ?_ now
          intro key e known
          simp [newStore] at known

theorem Run.labelled {h : History} (run : Run h) : h.store.Labelled := by
  intro node inGraph e known
  obtain ⟨-, -, -, -, vector⟩ := run.traced.node_set inGraph known
  exact vector

/-- In every reachable store, with an exact search, Get finds the nearest qualifying entry
exactly if one of the first `searchK` nodes of the ranking is qualifying. -/
theorem get_finds_nearest_iff {h : History} (run : Run h) {q : Query} (now : Int)
    {ranking : List Node} (ranked : h.store.Ranked q ranking) :
    h.store.Finds q now (h.store.get q now (ranking.take searchK)).1 ↔
      ((∃ key e sim, h.store.Qualifies q now key e sim) →
        ∃ node ∈ ranking.take searchK, ∃ e sim, h.store.Qualifies q now node.key e sim) :=
  Store.get_finds_iff run.labelled run.indexes ranked searchK

/-- A store for 21 with one entry of its own org and, in front of it, one entry of another
org for each key. -/
def crowded : List String → History
  | [] => (start 21 (.finite (1 / 4)) 10).step
      (.set { tenantID := "org", vector := [.finite (1 / 2)] } answer none "own" 0)
  | key :: rest => (crowded rest).step
      (.set { tenantID := "other", vector := [.finite 1] } answer none key 0)

def ownQuery : Query := { tenantID := "org", vector := [.finite 1] }

def ownEntry : Entry :=
  Stored.entry ⟨"own", { tenantID := "org", vector := [.finite (1 / 2)] }, answer, 10⟩

theorem crowded_keys (keys : List String) :
    (crowded keys).sets.map Stored.key = keys ++ ["own"] := by
  induction keys with
  | nil => rfl
  | cons key rest ih => exact congrArg (key :: ·) ih

theorem crowded_run {keys : List String} (nodup : (keys ++ ["own"]).Nodup) : Run (crowded keys) := by
  induction keys with
  | nil => exact (Run.start _ _ _).step (show _ ∉ _ from List.not_mem_nil)
  | cons key rest ih =>
      rw [List.cons_append, List.nodup_cons] at nodup
      refine (ih nodup.2).step ?_
      change key ∉ (crowded rest).sets.map Stored.key
      rw [crowded_keys]
      exact nodup.1

/-- The nodes by their similarity to the query: the other org's, then its own. -/
def crowdedRanking (keys : List String) : List Node :=
  keys.map (fun key => ⟨key, [.finite 1]⟩) ++ [⟨"own", [.finite (1 / 2)]⟩]

theorem crowded_ranked (keys : List String)
    (all : (crowdedRanking keys).Perm (crowded keys).store.graph) :
    (crowded keys).store.Ranked ownQuery (crowdedRanking keys) := by
  have one : cosineSimilarity ownQuery.vector [.finite 1] = .ok (.finite 1) := by decide +kernel
  have half : cosineSimilarity ownQuery.vector [.finite (1 / 2)] = .ok (.finite (1 / 2)) := by
    decide +kernel
  refine ⟨all, ?_, ?_⟩
  · intro node member
    rcases List.mem_append.mp member with other | own
    · obtain ⟨key, -, rfl⟩ := List.mem_map.mp other
      exact ⟨_, one, nofun⟩
    · rw [List.mem_singleton.mp own]
      exact ⟨_, half, nofun⟩
  · refine List.pairwise_append.mpr ⟨?_, List.pairwise_singleton _ _, ?_⟩
    · refine List.pairwise_map.mpr (List.pairwise_of_forall ?_)
      intro near far a b similar similar'
      cases one.symm.trans similar
      cases one.symm.trans similar'
      decide
    · intro near listed far own a b similar similar'
      obtain ⟨key, -, rfl⟩ := List.mem_map.mp listed
      rw [List.mem_singleton.mp own] at similar'
      cases one.symm.trans similar
      cases half.symm.trans similar'
      decide +kernel

theorem own_qualifies (keys : List String)
    (live : (crowded keys).store.entries.lookup "own" = some ownEntry)
    (threshold : (crowded keys).store.threshold = .finite (1 / 4)) :
    (crowded keys).store.Qualifies ownQuery 5 "own" ownEntry (.finite (1 / 2)) := by
  refine ⟨⟨live, by decide, rfl, rfl, rfl, rfl, by decide +kernel⟩, ?_⟩
  rw [threshold]
  decide +kernel

/-- With one entry of another org in front, the own one is found. -/
theorem own_entry_found :
    (crowded ["a"]).store.Finds ownQuery 5
      ((crowded ["a"]).store.get ownQuery 5 ((crowdedRanking ["a"]).take searchK)).1 := by
  have ranked := crowded_ranked ["a"] (by decide +kernel)
  refine (get_finds_nearest_iff (crowded_run (by decide)) 5 ranked).mpr fun _ => ?_
  exact ⟨⟨"own", [.finite (1 / 2)]⟩, by decide +kernel, ownEntry, _,
    own_qualifies ["a"] (by decide +kernel) (by decide +kernel)⟩

def twentyKeys : List String :=
  ["a", "b", "c", "d", "e", "f", "g", "h", "i", "j", "k", "l", "m", "n", "o", "p", "q", "r", "s",
    "t"]

/-- Twenty nearer entries of another org take all the candidates. -/
theorem twenty_others_hide_own :
    Run (crowded twentyKeys) ∧
      (crowded twentyKeys).store.Ranked ownQuery (crowdedRanking twentyKeys) ∧
      (crowded twentyKeys).store.Qualifies ownQuery 5 "own" ownEntry (.finite (1 / 2)) ∧
      ((crowded twentyKeys).store.get ownQuery 5 ((crowdedRanking twentyKeys).take searchK)).1 =
        .ok none ∧
      ¬ (crowded twentyKeys).store.Finds ownQuery 5
        ((crowded twentyKeys).store.get ownQuery 5 ((crowdedRanking twentyKeys).take searchK)).1 := by
  have qualifies := own_qualifies twentyKeys (by decide +kernel) (by decide +kernel)
  have miss : ((crowded twentyKeys).store.get ownQuery 5
      ((crowdedRanking twentyKeys).take searchK)).1 = .ok none := by decide +kernel
  refine ⟨crowded_run (by decide), crowded_ranked twentyKeys (by decide +kernel), qualifies, miss, ?_⟩
  intro finds
  obtain ⟨key, e, sim, -, hit, -⟩ := finds.1 ⟨_, _, _, qualifies⟩
  rw [miss] at hit
  cases hit

end History
end Gateway.Semantic
