import Mathlib

/-! The first items of a list in a given order, and what is left of them without the items one
does not want. -/
namespace TopK

section
variable {α : Type} (before : α → α → Prop)

/-- The order has no ties among the items. -/
def Distinguishes (items : List α) : Prop :=
  ∀ a ∈ items, ∀ b ∈ items, before a b → before b a → a = b

theorem Distinguishes.filter {before : α → α → Prop} {wanted : α → Bool} {items : List α}
    (h : Distinguishes before items) : Distinguishes before (items.filter wanted) :=
  fun a first b second => h a (List.mem_of_mem_filter first) b (List.mem_of_mem_filter second)

variable [DecidableRel before]

/-- The first `k` items. -/
def top (k : Nat) (items : List α) : List α := (items.insertionSort before).take k

/-- No item but the wanted ones is among the first, or all of the wanted ones are. -/
def Uncrowded (k : Nat) (wanted : α → Bool) (items : List α) : Prop :=
  (∀ x ∈ top before k items, wanted x = true) ∨
    ∀ x ∈ items, wanted x = true → x ∈ top before k items

variable {before} {k : Nat} {wanted : α → Bool} {items others : List α}

theorem mem_of_mem_top {x : α} (member : x ∈ top before k items) : x ∈ items :=
  (List.mem_insertionSort before).mp (List.mem_of_mem_take member)

theorem filter_take {l : List α} (nodup : l.Nodup)
    (uncrowded : (∀ x ∈ l.take k, wanted x = true) ∨
      ∀ x ∈ l, wanted x = true → x ∈ l.take k) :
    (l.take k).filter wanted = (l.filter wanted).take k := by
  have split : l.filter wanted = (l.take k).filter wanted ++ (l.drop k).filter wanted := by
    rw [← List.filter_append, List.take_append_drop]
  rcases uncrowded with only | all
  · have kept : (l.take k).filter wanted = l.take k := List.filter_eq_self.mpr only
    rw [split, kept]
    rcases le_total k l.length with long | short
    · exact (List.take_left' (List.length_take_of_le long)).symm
    · rw [List.drop_eq_nil_of_le short, List.filter_nil, List.append_nil, List.take_take, min_self]
  · have none : (l.drop k).filter wanted = [] := by
      refine List.filter_eq_nil_iff.mpr fun x dropped is => ?_
      exact List.disjoint_take_drop nodup le_rfl (all x (List.mem_of_mem_drop dropped) is) dropped
    have few : ((l.take k).filter wanted).length ≤ k :=
      (List.length_filter_le _ _).trans (List.length_take_le _ _)
    rw [split, none, List.append_nil, List.take_of_length_le few]

variable [Std.Total before] [IsTrans α before]

/-- Without ties the order of the items does not matter. -/
theorem top_eq_of_perm (distinct : Distinguishes before items) (perm : items.Perm others) :
    top before k items = top before k others := by
  have left := List.perm_insertionSort before items
  have right := List.perm_insertionSort before others
  refine congrArg (List.take k) (List.Perm.eq_of_pairwise ?_ (List.pairwise_insertionSort before items)
    (List.pairwise_insertionSort before others) (left.trans (perm.trans right.symm)))
  intro a b first second
  exact distinct a (left.mem_iff.mp first) b (perm.mem_iff.mpr (right.mem_iff.mp second))

theorem filter_insertionSort (distinct : Distinguishes before items) :
    (items.insertionSort before).filter wanted = (items.filter wanted).insertionSort before := by
  have whole := (List.perm_insertionSort before items).filter wanted
  have part := List.perm_insertionSort before (items.filter wanted)
  refine List.Perm.eq_of_pairwise ?_ ((List.pairwise_insertionSort before items).filter wanted)
    (List.pairwise_insertionSort before _) (whole.trans part.symm)
  intro a b first second
  exact distinct.filter a (whole.mem_iff.mp first) b (part.mem_iff.mp second)

/-- Where they do not crowd, unwanted items change nothing for the others. -/
theorem filter_top (distinct : Distinguishes before items) (nodup : items.Nodup)
    (uncrowded : Uncrowded before k wanted items) :
    (top before k items).filter wanted = top before k (items.filter wanted) := by
  have sorted := List.perm_insertionSort before items
  have wide : (∀ x ∈ (items.insertionSort before).take k, wanted x = true) ∨
      ∀ x ∈ items.insertionSort before, wanted x = true → x ∈ (items.insertionSort before).take k :=
    uncrowded.imp_right fun all x member => all x (sorted.mem_iff.mp member)
  rw [top, filter_take (sorted.nodup_iff.mpr nodup) wide, filter_insertionSort distinct]
  rfl

end

end TopK
