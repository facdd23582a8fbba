import Mathlib

/-! Lists grouped by a key: the groups of a list that is read in the order of its keys, and
stable sorting, which changes no group. -/
namespace Grouping
variable {α κ : Type} [LinearOrder κ] {key : α → κ} {l : List α} {groups : List (κ × List α)} {x : α}

/-- One group for each key, ascending, with the elements of that key as the list has them. -/
structure Grouped (key : α → κ) (l : List α) (groups : List (κ × List α)) : Prop where
  ascending : (groups.map Prod.fst).Pairwise (· < ·)
  classes : ∀ g ∈ groups, g.2 = l.filter (key · = g.1)
  inhabited : ∀ g ∈ groups, g.2 ≠ []
  covered : ∀ y ∈ l, key y ∈ groups.map Prod.fst

theorem Grouped.nil : Grouped key [] [] := ⟨.nil, by simp, by simp, by simp⟩

/-- The key of a group is the key of one of the elements. -/
theorem Grouped.key_mem (h : Grouped key l groups) {g : κ × List α} (member : g ∈ groups) :
    ∃ y ∈ l, key y = g.1 := by
  obtain ⟨y, inside⟩ := List.exists_mem_of_ne_nil g.2 (h.inhabited g member)
  rw [h.classes g member, List.mem_filter, decide_eq_true_eq] at inside
  exact ⟨y, inside⟩

/-- An element with a new key opens a group. -/
theorem Grouped.opens (h : Grouped key l groups) (above : ∀ y ∈ l, key y < key x) :
    Grouped key (l ++ [x]) (groups ++ [(key x, [x])]) where
  ascending := by
    rw [List.map_append, List.pairwise_append]
    refine ⟨h.ascending, List.pairwise_singleton _ _, ?_⟩
    intro k earlier k' last
    obtain ⟨g, member, rfl⟩ := List.mem_map.mp earlier
    obtain ⟨y, inside, same⟩ := h.key_mem member
    rw [List.mem_singleton.mp last, ← same]
    exact above y inside
  classes := by
    intro g member
    rw [List.filter_append]
    rcases List.mem_append.mp member with old | new
    · obtain ⟨y, inside, same⟩ := h.key_mem old
      have other : key x ≠ g.1 := same ▸ (above y inside).ne'
      simp [other, h.classes g old]
    · rw [List.mem_singleton.mp new]
      have none : l.filter (key · = key x) = [] := by
        apply List.filter_eq_nil_iff.mpr
        intro y inside
        simpa using (above y inside).ne
      simp [none]
  inhabited := by
    intro g member
    rcases List.mem_append.mp member with old | new
    · exact h.inhabited g old
    · rw [List.mem_singleton.mp new]
      exact List.cons_ne_nil x []
  covered := by
    intro y member
    rw [List.map_append, List.mem_append]
    rcases List.mem_append.mp member with old | new
    · exact .inl (h.covered y old)
    · rw [List.mem_singleton.mp new]
      exact .inr (List.mem_singleton_self _)

/-- An element with the last key joins the last group. -/
theorem Grouped.joins {xs : List α} (h : Grouped key l (groups ++ [(key x, xs)])) :
    Grouped key (l ++ [x]) (groups ++ [(key x, xs ++ [x])]) where
  ascending := by
    have keys := h.ascending
    rw [List.map_append] at keys ⊢
    exact keys
  classes := by
    intro g member
    rw [List.filter_append]
    rcases List.mem_append.mp member with old | new
    · have keys := h.ascending
      rw [List.map_append, List.pairwise_append] at keys
      have other : key x ≠ g.1 :=
        (keys.2.2 g.1 (List.mem_map_of_mem old) (key x) (List.mem_singleton_self _)).ne'
      simp [other, ← h.classes g (List.mem_append_left _ old)]
    · rw [List.mem_singleton.mp new]
      have last := h.classes (key x, xs) (List.mem_append_right _ (List.mem_singleton_self _))
      simp [← last]
  inhabited := by
    intro g member
    rcases List.mem_append.mp member with old | new
    · exact h.inhabited g (List.mem_append_left _ old)
    · rw [List.mem_singleton.mp new]
      simp
  covered := by
    intro y member
    rw [List.map_append, List.mem_append]
    rcases List.mem_append.mp member with old | new
    · have keys := h.covered y old
      rw [List.map_append, List.mem_append] at keys
      exact keys
    · rw [List.mem_singleton.mp new]
      exact .inr (List.mem_singleton_self _)

/-- Groups depend on the order inside each key only. -/
theorem Grouped.congr {l' : List α} (h : Grouped key l groups)
    (same : ∀ k, l.filter (key · = k) = l'.filter (key · = k)) : Grouped key l' groups where
  ascending := h.ascending
  classes := by
    intro g member
    rw [h.classes g member, same]
  inhabited := h.inhabited
  covered := by
    intro y member
    have inside : y ∈ l'.filter (key · = key y) := List.mem_filter.mpr ⟨member, by simp⟩
    rw [← same] at inside
    exact h.covered y (List.mem_filter.mp inside).1

section Stable
variable {r : α → α → Prop} [DecidableRel r] (byKey : ∀ x y, r x y ↔ key x ≤ key y)
include byKey

theorem filter_orderedInsert (x : α) (l : List α) (k : κ) :
    (l.orderedInsert r x).filter (key · = k) = (x :: l).filter (key · = k) := by
  induction l with
  | nil => rfl
  | cons y l ih =>
      by_cases le : r x y
      · rw [List.orderedInsert_cons, if_pos le]
      · rw [List.orderedInsert_cons, if_neg le, List.filter_cons, ih]
        by_cases here : key y = k
        · have passed : key x ≠ k := by
            intro same
            exact le ((byKey x y).mpr (same.trans here.symm).le)
          simp [here, passed]
        · simp [List.filter_cons, here]

/-- A stable sort keeps the elements of each key in their order. -/
theorem filter_insertionSort (l : List α) (k : κ) :
    (l.insertionSort r).filter (key · = k) = l.filter (key · = k) := by
  induction l with
  | nil => rfl
  | cons x l ih =>
      rw [List.insertionSort_cons, filter_orderedInsert byKey, List.filter_cons, List.filter_cons, ih]

theorem insertionSort_ascending (l : List α) : (l.insertionSort r).Pairwise (key · ≤ key ·) := by
  have total : Std.Total r := ⟨fun x y => by rw [byKey, byKey]; exact le_total _ _⟩
  have trans : IsTrans α r := ⟨fun x y z => by rw [byKey, byKey, byKey]; exact le_trans⟩
  exact (List.pairwise_insertionSort r l).imp fun {x y} => (byKey x y).mp

end Stable

end Grouping
