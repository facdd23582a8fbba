import InferenceGateway.Cache.Nearest
import InferenceGateway.TopK.Basic

/-! Tier-2 stores that differ in their graphs at most, and how far Get and Set can tell them
apart when the search is exact. -/
namespace Gateway.Semantic
open Gateway.Providers Gateway.Embedding
open Binary64 (Value)

/-- An exact search: an order of the nodes for each vector, in which keys break the ties. -/
structure Ranking where
  before : Vector → Node → Node → Prop
  decides : ∀ v, DecidableRel (before v)
  total : ∀ v, Std.Total (before v)
  trans : ∀ v, IsTrans Node (before v)
  keyed : ∀ v a b, before v a b → before v b a → a.key = b.key

attribute [instance] Ranking.decides Ranking.total Ranking.trans

/-- Two stores that differ in their graphs at most. -/
structure Store.Alike (s t : Store) : Prop where
  lru : s.lru = t.lru
  lookup : ∀ key, s.entries.lookup key = t.entries.lookup key
  maxVectors : s.maxVectors = t.maxVectors
  ttl : s.ttl = t.ttl
  threshold : s.threshold = t.threshold

namespace Store

/-- The node has an entry. -/
def live (s : Store) (node : Node) : Bool := (s.entries.lookup node.key).isSome

/-- The keys the loop of Set evicts, in order. -/
def evictions : Nat → Store → List String
  | 0, _ => []
  | fuel + 1, s =>
      if s.maxVectors < s.entries.keys.length then
        s.lru.getLast?.toList ++ evictions fuel s.evictOldest
      else []

/-- No key is in the graph twice. -/
def Distinct (s : Store) : Prop := (s.graph.map Node.key).Nodup

/-- What the graph is to the entries: it has the vector of each, under its key. -/
structure Indexed (s : Store) : Prop where
  indexes : s.Indexes
  labelled : s.Labelled
  distinct : s.Distinct

def Unexpired (s : Store) (now : Int) : Prop :=
  ∀ key e, s.entries.lookup key = some e → now ≤ e.expiresAt

/-- No node has lost its entry. -/
def Whole (s : Store) : Prop := ∀ node ∈ s.graph, s.live node = true

variable {s t : Store} {q : Query} {now : Int} {key : String} {e : Entry}

theorem evictions_append (fuel : Nat) (s : Store) :
    evictions fuel s ++ (evictAbove fuel s).lru.reverse = s.lru.reverse := by
  induction fuel generalizing s with
  | zero => rfl
  | succ fuel ih =>
      unfold evictions evictAbove
      split
      · rw [List.append_assoc, ih, evictOldest_lru]
        cases last : s.lru.getLast? with
        | none => rw [List.getLast?_eq_none_iff.mp last]; rfl
        | some key =>
            obtain ⟨front, whole⟩ := List.getLast?_eq_some_iff.mp last
            simp [whole]
      · rfl

theorem Distinct.push (h : s.Distinct) (new : key ∉ s.graph.map Node.key) :
    (s.push key e).Distinct := by
  unfold Distinct Store.push
  rw [List.map_append]
  refine h.append (List.nodup_singleton _) ?_
  simpa using new

theorem Distinct.evictOldest (h : s.Distinct) : s.evictOldest.Distinct := by
  unfold Store.evictOldest Store.rebuildGraphIfNeeded
  split
  · exact h
  · split
    · exact h
    · unfold Distinct
      rw [List.map_map]
      exact AList.keys_nodup _

theorem Distinct.loadFromDisk {persisted : List Persisted} {s : Store} (h : s.Distinct)
    (nodup : (persisted.map Persisted.key).Nodup)
    (new : ∀ pe ∈ persisted, pe.key ∉ s.graph.map Node.key) :
    (s.loadFromDisk persisted now).Distinct := by
  induction persisted generalizing s with
  | nil => exact h
  | cons pe rest ih =>
      rw [List.map_cons, List.nodup_cons] at nodup
      rw [List.forall_mem_cons] at new
      rw [loadFromDisk_cons]
      unfold load
      split
      · exact ih h nodup.2 new.2
      · refine ih (h.push new.1) nodup.2 fun later listed known => ?_
        rw [Store.push, List.map_append, List.mem_append] at known
        rcases known with old | same
        · exact new.2 later listed old
        · exact nodup.1 (List.mem_map.mpr ⟨later, listed, List.mem_singleton.mp same⟩)

namespace Alike

theorem symm (h : s.Alike t) : t.Alike s :=
  ⟨h.lru.symm, fun key => (h.lookup key).symm, h.maxVectors.symm, h.ttl.symm, h.threshold.symm⟩

theorem trans {u : Store} (h : s.Alike t) (later : t.Alike u) : s.Alike u :=
  ⟨h.lru.trans later.lru, fun key => (h.lookup key).trans (later.lookup key),
    h.maxVectors.trans later.maxVectors, h.ttl.trans later.ttl, h.threshold.trans later.threshold⟩

theorem rebuilt (s : Store) : s.rebuildGraphIfNeeded.Alike s := by
  unfold Store.rebuildGraphIfNeeded
  split <;> exact ⟨rfl, fun _ => rfl, rfl, rfl, rfl⟩

theorem entries (h : s.Alike t) : s.entries.entries.Perm t.entries.entries := by
  refine List.lookup_ext s.entries.nodupKeys t.entries.nodupKeys fun key e => ?_
  change e ∈ s.entries.lookup key ↔ e ∈ t.entries.lookup key
  rw [h.lookup key]

theorem keys (h : s.Alike t) : s.entries.keys.Perm t.entries.keys := h.entries.map Sigma.fst

theorem push (h : s.Alike t) (key : String) (e : Entry) : (s.push key e).Alike (t.push key e) where
  lru := congrArg (key :: ·) h.lru
  lookup other := by
    by_cases same : other = key
    · rw [same, Store.push, Store.push, AList.lookup_insert, AList.lookup_insert]
    · rw [Store.push, Store.push, AList.lookup_insert_ne same, AList.lookup_insert_ne same, h.lookup]
  maxVectors := h.maxVectors
  ttl := h.ttl
  threshold := h.threshold

theorem erase (h : s.Alike t) (key : String) :
    Store.Alike { s with lru := t.lru.dropLast, entries := s.entries.erase key }
      { t with lru := t.lru.dropLast, entries := t.entries.erase key } := by
  refine ⟨rfl, fun other => ?_, h.maxVectors, h.ttl, h.threshold⟩
  by_cases same : other = key
  · rw [same, AList.lookup_erase, AList.lookup_erase]
  · rw [AList.lookup_erase_ne same, AList.lookup_erase_ne same, h.lookup]

theorem evictOldest (h : s.Alike t) : s.evictOldest.Alike t.evictOldest := by
  unfold Store.evictOldest
  rw [h.lru]
  split
  · exact h
  · exact (rebuilt _).trans ((h.erase _).trans (rebuilt _).symm)

theorem evictAbove (h : s.Alike t) (fuel : Nat) :
    evictions fuel s = evictions fuel t ∧
      (Store.evictAbove fuel s).Alike (Store.evictAbove fuel t) := by
  induction fuel generalizing s t with
  | zero => exact ⟨rfl, h⟩
  | succ fuel ih =>
      unfold evictions Store.evictAbove
      rw [h.maxVectors, h.keys.length_eq, h.lru]
      split
      · exact ⟨congrArg _ (ih h.evictOldest).1, (ih h.evictOldest).2⟩
      · exact ⟨rfl, h⟩

theorem scan (h : s.Alike t) (nodes : List Node) : s.scan q now nodes = t.scan q now nodes := by
  induction nodes with
  | nil => rfl
  | cons node rest ih => rw [Store.scan, Store.scan, h.lookup, h.threshold, ih]

theorem moveToFront (h : s.Alike t) (key : String) : (s.moveToFront key).Alike (t.moveToFront key) :=
  ⟨congrArg (fun lru : List String => key :: lru.erase key) h.lru, h.lookup, h.maxVectors, h.ttl,
    h.threshold⟩

end Alike

/-- The loop of Get goes past nodes without an entry. -/
theorem scan_live (s : Store) (q : Query) (now : Int) (nodes : List Node) :
    s.scan q now (nodes.filter s.live) = s.scan q now nodes := by
  induction nodes with
  | nil => rfl
  | cons node rest ih =>
      cases known : s.entries.lookup node.key with
      | none =>
          rw [List.filter_cons_of_neg (by simp [live, known]), ih, scan]
          simp only [known]
      | some e =>
          rw [List.filter_cons_of_pos (by simp [live, known]), scan, scan, ih]

/-- Get depends on the candidates that have an entry. -/
theorem Alike.get (h : s.Alike t) {proposed others : List Node}
    (same : (s.search proposed).filter s.live = (t.search others).filter t.live) :
    (s.get q now proposed).1 = (t.get q now others).1 ∧
      (s.get q now proposed).2.Alike (t.get q now others).2 := by
  have scanned : s.scan q now (s.search proposed) = t.scan q now (t.search others) := by
    rw [← s.scan_live, ← t.scan_live, same, h.scan]
  unfold Store.get
  rw [h.keys.length_eq, scanned]
  split
  · exact ⟨rfl, h⟩
  · split
    · exact ⟨rfl, h⟩
    · exact ⟨rfl, h⟩
    · exact ⟨rfl, h.moveToFront _⟩

theorem get_graph (s : Store) (q : Query) (now : Int) (proposed : List Node) :
    (s.get q now proposed).2.graph = s.graph := by
  rcases s.get_cases q now proposed with same | ⟨key, -, touched⟩
  · rw [same]
  · rw [touched]
    rfl

theorem loadFromDisk_lru {persisted : List Persisted} {s : Store}
    (unexpired : ∀ pe ∈ persisted, now ≤ pe.entry.expiresAt) :
    (s.loadFromDisk persisted now).lru = (persisted.map Persisted.key).reverse ++ s.lru := by
  induction persisted generalizing s with
  | nil => rfl
  | cons pe rest ih =>
      rw [List.forall_mem_cons] at unexpired
      rw [loadFromDisk_cons, load, if_neg (not_lt.mpr unexpired.1), ih unexpired.2]
      simp [push]

theorem loadFromDisk_parameters (s : Store) (persisted : List Persisted) (now : Int) :
    (s.loadFromDisk persisted now).maxVectors = s.maxVectors ∧
      (s.loadFromDisk persisted now).ttl = s.ttl ∧
      (s.loadFromDisk persisted now).threshold = s.threshold := by
  induction persisted generalizing s with
  | nil => exact ⟨rfl, rfl, rfl⟩
  | cons pe rest ih =>
      rw [loadFromDisk_cons, load]
      split
      · exact ih s
      · exact ih _

theorem lookup_loadFromDisk {persisted : List Persisted} {s : Store}
    (unexpired : ∀ pe ∈ persisted, now ≤ pe.entry.expiresAt)
    (nodup : (persisted.map Persisted.key).Nodup) :
    (s.loadFromDisk persisted now).entries.lookup key = some e ↔
      ⟨key, e⟩ ∈ persisted ∨ key ∉ persisted.map Persisted.key ∧ s.entries.lookup key = some e := by
  induction persisted generalizing s with
  | nil => simp [loadFromDisk]
  | cons pe rest ih =>
      rw [List.forall_mem_cons] at unexpired
      rw [List.map_cons, List.nodup_cons] at nodup
      rw [loadFromDisk_cons, load, if_neg (not_lt.mpr unexpired.1), ih unexpired.2 nodup.2]
      obtain ⟨own, entry⟩ := pe
      by_cases same : key = own
      · subst same
        have other : (⟨key, e⟩ : Persisted) ∉ rest := fun listed =>
          nodup.1 (List.mem_map.mpr ⟨_, listed, rfl⟩)
        simp [push, other, nodup.1, eq_comm]
      · simp [push, same, AList.lookup_insert_ne same]

theorem Whole.push (h : s.Whole) : (s.push key e).Whole := by
  intro node inGraph
  rw [live, AList.lookup_isSome, mem_push]
  rcases List.mem_append.mp inGraph with old | new
  · exact .inr (AList.lookup_isSome.mp (h node old))
  · exact .inl (congrArg Node.key (List.mem_singleton.mp new))

theorem Whole.loadFromDisk {persisted : List Persisted} {s : Store} (h : s.Whole) :
    (s.loadFromDisk persisted now).Whole := by
  induction persisted generalizing s with
  | nil => exact h
  | cons pe rest ih =>
      rw [loadFromDisk_cons, load]
      split
      · exact ih h
      · exact ih h.push

theorem Whole.filter_live (h : s.Whole) : s.graph.filter s.live = s.graph :=
  List.filter_eq_self.mpr h

theorem Indexed.mem_live (indexed : s.Indexed) {node : Node} :
    node ∈ s.graph.filter s.live ↔ ∃ e, s.entries.lookup node.key = some e ∧ e.vector = node.value := by
  rw [List.mem_filter, live, Option.isSome_iff_exists]
  constructor
  · rintro ⟨inGraph, e, known⟩
    exact ⟨e, known, indexed.labelled node inGraph e known⟩
  · rintro ⟨e, known, vector⟩
    have inGraph := indexed.indexes node.key e known
    rw [vector] at inGraph
    exact ⟨inGraph, e, known⟩

theorem Alike.live_perm (h : s.Alike t) (first : s.Indexed) (second : t.Indexed) :
    (s.graph.filter s.live).Perm (t.graph.filter t.live) := by
  refine (List.perm_ext_iff_of_nodup (first.distinct.of_map.filter _)
    (second.distinct.of_map.filter _)).mpr fun node => ?_
  rw [first.mem_live, second.mem_live, h.lookup]

theorem Alike.live (h : s.Alike t) : s.live = t.live := by
  ext node
  rw [Store.live, Store.live, h.lookup]

/-- Alike stores whose graphs have the same nodes. -/
structure Mirrors (s t : Store) : Prop extends s.Alike t where
  graph : s.graph.Perm t.graph

namespace Mirrors

theorem push (h : s.Mirrors t) (key : String) (e : Entry) : (s.push key e).Mirrors (t.push key e) :=
  ⟨h.toAlike.push key e, h.graph.append_right _⟩

theorem rebuildGraphIfNeeded (h : s.Mirrors t) :
    s.rebuildGraphIfNeeded.Mirrors t.rebuildGraphIfNeeded := by
  refine ⟨(Alike.rebuilt s).trans (h.toAlike.trans (Alike.rebuilt t).symm), ?_⟩
  unfold Store.rebuildGraphIfNeeded orphans
  rw [h.graph.length_eq, h.keys.length_eq, h.maxVectors]
  split
  · exact h.graph
  · exact h.entries.map _

theorem evictOldest (h : s.Mirrors t) : s.evictOldest.Mirrors t.evictOldest := by
  unfold Store.evictOldest
  rw [h.lru]
  split
  · exact h
  · rename_i key _
    exact rebuildGraphIfNeeded ⟨h.erase key, h.graph⟩

theorem evictAbove (h : s.Mirrors t) (fuel : Nat) :
    (Store.evictAbove fuel s).Mirrors (Store.evictAbove fuel t) := by
  induction fuel generalizing s t with
  | zero => exact h
  | succ fuel ih =>
      unfold Store.evictAbove
      rw [h.maxVectors, h.keys.length_eq]
      split
      · exact ih h.evictOldest
      · exact h

end Mirrors

end Store

namespace Ranking

/-- What Search returns. -/
def search (ranking : Ranking) (s : Store) (v : Vector) : List Node :=
  TopK.top (ranking.before v) searchK s.graph

/-- No node that has lost its entry keeps one that has not from being a candidate. -/
def Uncrowded (ranking : Ranking) (s : Store) (v : Vector) : Prop :=
  TopK.Uncrowded (ranking.before v) searchK s.live s.graph

variable {s t : Store}

theorem distinguishes (ranking : Ranking) (v : Vector) (distinct : s.Distinct) :
    TopK.Distinguishes (ranking.before v) s.graph := by
  intro a first b second near far
  exact List.inj_on_of_nodup_map distinct first second (ranking.keyed v a b near far)

/-- Where nothing crowds them, alike stores have the same candidates. -/
theorem candidates_eq (ranking : Ranking) (v : Vector) (alike : s.Alike t) (first : s.Indexed)
    (second : t.Indexed) (clear : ranking.Uncrowded s v) (clear' : ranking.Uncrowded t v) :
    (ranking.search s v).filter s.live = (ranking.search t v).filter t.live := by
  have distinct := ranking.distinguishes v first.distinct
  have distinct' := ranking.distinguishes v second.distinct
  rw [search, search, TopK.filter_top distinct first.distinct.of_map clear,
    TopK.filter_top distinct' second.distinct.of_map clear']
  exact TopK.top_eq_of_perm distinct.filter (alike.live_perm first second)

theorem candidates_mirrored (ranking : Ranking) (v : Vector) (mirrors : s.Mirrors t)
    (distinct : s.Distinct) :
    (ranking.search s v).filter s.live = (ranking.search t v).filter t.live := by
  rw [search, search, mirrors.live,
    TopK.top_eq_of_perm (ranking.distinguishes v distinct) mirrors.graph]

theorem search_search (ranking : Ranking) (s : Store) (v : Vector) :
    s.search (ranking.search s v) = ranking.search s v :=
  Store.search_of_subset fun _ => TopK.mem_of_mem_top

end Ranking

/-- Similarities in increasing order; first those that are not numbers. -/
def score : Except Panic Value → ℤ ×ₗ ℚ
  | .error _ => toLex (-2, 0)
  | .ok .nan => toLex (-1, 0)
  | .ok (.infinite true) => toLex (0, 0)
  | .ok (.finite q) => toLex (1, q)
  | .ok (.infinite false) => toLex (2, 0)

def position (v : Vector) (node : Node) : (ℤ ×ₗ ℚ)ᵒᵈ ×ₗ String :=
  toLex (OrderDual.toDual (score (cosineSimilarity v node.value)), node.key)

/-- The exact nearest-neighbour search. -/
def nearestFirst : Ranking where
  before v a b := position v a ≤ position v b
  decides v a b := inferInstanceAs (Decidable (position v a ≤ position v b))
  total v := ⟨fun a b => le_total (position v a) (position v b)⟩
  trans v := ⟨fun a b c => le_trans⟩
  keyed v a b near far := by
    have same : position v a = position v b := le_antisymm near far
    exact congrArg (fun place => (ofLex place).2) same

theorem le_of_score {a b : Value} (number : a ≠ .nan) (number' : b ≠ .nan)
    (order : score (.ok a) ≤ score (.ok b)) : a.le b = true := by
  cases a with
  | nan => exact absurd rfl number
  | finite p =>
      cases b with
      | nan => exact absurd rfl number'
      | finite q =>
          rcases Prod.Lex.toLex_le_toLex.mp order with less | ⟨-, le⟩
          · exact absurd less (lt_irrefl _)
          · exact decide_eq_true le
      | infinite negative =>
          cases negative <;> simp_all [score, Value.le, Prod.Lex.toLex_le_toLex]
  | infinite negative =>
      cases b with
      | nan => exact absurd rfl number'
      | finite q => cases negative <;> simp_all [score, Value.le, Prod.Lex.toLex_le_toLex]
      | infinite negative' =>
          cases negative <;> cases negative' <;>
            simp_all [score, Value.le, Prod.Lex.toLex_le_toLex]

theorem nearestFirst_ranked {s : Store} {q : Query}
    (measured : ∀ node ∈ s.graph, ∃ sim, cosineSimilarity q.vector node.value = .ok sim ∧ sim ≠ .nan) :
    s.Ranked q (s.graph.insertionSort (nearestFirst.before q.vector)) := by
  have perm := List.perm_insertionSort (nearestFirst.before q.vector) s.graph
  have known (node : Node) (listed : node ∈ s.graph.insertionSort (nearestFirst.before q.vector)) :=
    measured node (perm.mem_iff.mp listed)
  refine ⟨perm, known, (List.pairwise_insertionSort _ s.graph).imp_of_mem ?_⟩
  intro near far first second order a b similar similar'
  obtain ⟨sim, is, number⟩ := known near first
  obtain ⟨sim', is', number'⟩ := known far second
  cases is.symm.trans similar
  cases is'.symm.trans similar'
  have scores : score (cosineSimilarity q.vector far.value) ≤ score (cosineSimilarity q.vector near.value) :=
    Prod.Lex.monotone_fst _ _ order
  rw [is, is'] at scores
  exact le_of_score number' number scores

end Gateway.Semantic
