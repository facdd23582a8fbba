import Mathlib

/-! Lists whose elements keep an identity while they are moved, and orders of use. -/
namespace ElementList

structure Element (α : Type) where
  id : Nat
  value : α
  deriving DecidableEq

/-- No two elements share an identity, and `issued` bounds the identities handed out. -/
structure Seq (α : Type) where
  elements : List (Element α)
  issued : Nat
  distinct : (elements.map Element.id).Nodup
  below : ∀ e ∈ elements, e.id < issued

/-- Using `k` makes it the most recent. -/
def touch {α : Type} [DecidableEq α] (k : α) (uses : List α) : List α := k :: uses.erase k

section Touch
variable {α : Type} [DecidableEq α] {k : α} {uses : List α}

theorem touch_nodup (nodup : uses.Nodup) : (touch k uses).Nodup :=
  List.nodup_cons.mpr ⟨nodup.not_mem_erase, nodup.erase k⟩

/-- Using one of the `n` most recent changes which they are as it changes the whole order. -/
theorem touch_take {n : Nat} (recent : k ∈ uses.take n) :
    touch k (uses.take n) = (touch k uses).take n := by
  induction uses generalizing n with
  | nil => simp at recent
  | cons first uses ih =>
      cases n with
      | zero => simp at recent
      | succ n =>
          rw [List.take_succ_cons] at recent ⊢
          by_cases same : first = k
          · subst same
            simp [touch]
          · have later : k ∈ uses.take n := by
              rcases List.mem_cons.mp recent with rfl | later
              · exact absurd rfl same
              · exact later
            obtain ⟨m, rfl⟩ : ∃ m, n = m + 1 := by
              cases n with
              | zero => simp at later
              | succ m => exact ⟨m, rfl⟩
            have rest := ih later
            rw [touch, touch, List.take_succ_cons, List.cons.injEq] at rest
            simp only [touch, List.erase_cons_tail (show ¬ (first == k) = true by simpa using same),
              List.take_succ_cons, rest.2]

end Touch

theorem erase_last {α : Type} [DecidableEq α] {l : List α} {a : α} (nodup : l.Nodup)
    (last : l.getLast? = some a) : l.erase a = l.dropLast := by
  have split := List.dropLast_append_getLast? a last
  have nodup : (l.dropLast ++ [a]).Nodup := split.symm ▸ nodup
  have absent : a ∉ l.dropLast := fun earlier =>
    (List.nodup_append.mp nodup).2.2 a earlier a (List.mem_singleton_self a) rfl
  conv_lhs => rw [← split]
  rw [List.erase_append_right _ absent]
  simp

namespace Seq
variable {α : Type}

def new : Seq α := ⟨[], 0, List.nodup_nil, nofun⟩

def values (l : Seq α) : List α := l.elements.map Element.value

def pushFront (l : Seq α) (v : α) : Element α × Seq α :=
  (⟨l.issued, v⟩,
    { elements := ⟨l.issued, v⟩ :: l.elements
      issued := l.issued + 1
      distinct := by
        refine List.nodup_cons.mpr ⟨?_, l.distinct⟩
        intro old
        obtain ⟨e, member, same⟩ := List.mem_map.mp old
        exact absurd same (Nat.ne_of_lt (l.below e member))
      below := by
        intro e member
        rcases List.mem_cons.mp member with rfl | old
        · exact Nat.lt_succ_self _
        · exact Nat.lt_succ_of_lt (l.below e old) })

def back (l : Seq α) : Option (Element α) := l.elements.getLast?

theorem nodup (l : Seq α) : l.elements.Nodup := .of_map _ l.distinct

variable [DecidableEq α]

def remove (l : Seq α) (e : Element α) : Seq α where
  elements := l.elements.erase e
  issued := l.issued
  distinct := l.distinct.sublist (List.erase_sublist.map _)
  below other member := l.below other (List.mem_of_mem_erase member)

/-- An element of another list is left alone. -/
def moveToFront (l : Seq α) (e : Element α) : Seq α :=
  if member : e ∈ l.elements then
    { elements := e :: l.elements.erase e
      issued := l.issued
      distinct := ((List.perm_cons_erase member).map _).nodup_iff.mp l.distinct
      below := fun other listed =>
        l.below other ((List.perm_cons_erase member).mem_iff.mpr listed) }
  else l

omit [DecidableEq α] in
@[simp] theorem values_pushFront (l : Seq α) (v : α) : (l.pushFront v).2.values = v :: l.values := rfl

theorem mem_moveToFront {l : Seq α} {e other : Element α} :
    other ∈ (l.moveToFront e).elements ↔ other ∈ l.elements := by
  unfold moveToFront
  split
  · rename_i member
    exact (List.perm_cons_erase member).mem_iff.symm
  · exact Iff.rfl

theorem map_erase_value {elements : List (Element α)} {e : Element α} (member : e ∈ elements)
    (nodup : (elements.map Element.value).Nodup) :
    (elements.erase e).map Element.value = (elements.map Element.value).erase e.value := by
  induction elements with
  | nil => cases member
  | cons first rest ih =>
      rw [List.map_cons, List.nodup_cons] at nodup
      by_cases same : first = e
      · subst same
        simp
      · have later : e ∈ rest := by
          rcases List.mem_cons.mp member with rfl | later
          · exact absurd rfl same
          · exact later
        have apart : first.value ≠ e.value := by
          intro shared
          exact nodup.1 (shared ▸ List.mem_map_of_mem later)
        rw [List.erase_cons_tail (by simpa using same), List.map_cons, List.map_cons,
          List.erase_cons_tail (by simpa using apart), ih later nodup.2]

theorem values_moveToFront {l : Seq α} {e : Element α} (member : e ∈ l.elements)
    (nodup : l.values.Nodup) : (l.moveToFront e).values = touch e.value l.values := by
  simp only [moveToFront, member, dif_pos, values, List.map_cons, touch,
    map_erase_value member nodup]

omit [DecidableEq α] in
theorem back_value (l : Seq α) : l.back.map Element.value = l.values.getLast? :=
  List.getLast?_map.symm

theorem values_remove_back {l : Seq α} {e : Element α} (last : l.back = some e) :
    (l.remove e).values = l.values.dropLast := by
  change (l.elements.erase e).map Element.value = _
  rw [erase_last l.nodup last, values, List.map_dropLast]

theorem mem_remove {l : Seq α} {e other : Element α} :
    other ∈ (l.remove e).elements ↔ other ≠ e ∧ other ∈ l.elements := l.nodup.mem_erase_iff

end Seq
end ElementList
