import Mathlib

/-! Choice by cumulative weights: a number below the total is walked down the list, and
stops at the entry whose interval holds it. -/
namespace WeightedChoice

/-- The index at which the walk stops. -/
def position : List ℕ → ℕ → Option ℕ
  | [], _ => none
  | w :: ws, pick => if pick < w then some 0 else (position ws (pick - w)).map (· + 1)

theorem sum_take_succ (ws : List ℕ) (i : ℕ) :
    (ws.take (i + 1)).sum = (ws.take i).sum + ws.getD i 0 := by
  rw [List.take_add_one, List.sum_append, List.getD_eq_getElem?_getD]
  cases ws[i]? <;> simp

theorem sum_take_le (ws : List ℕ) (i : ℕ) : (ws.take i).sum ≤ ws.sum :=
  (List.take_sublist i ws).sum_le_sum fun _ _ => Nat.zero_le _

/-- Entry `i` owns the numbers from the weight before it to the weight with it. -/
theorem position_eq_some_iff {ws : List ℕ} {pick i : ℕ} :
    position ws pick = some i ↔ (ws.take i).sum ≤ pick ∧ pick < (ws.take (i + 1)).sum := by
  induction ws generalizing pick i with
  | nil => simp [position]
  | cons w ws ih =>
      by_cases here : pick < w
      · rw [position, if_pos here]
        cases i with
        | zero => simp [here]
        | succ i =>
            rw [List.take_succ_cons, List.sum_cons]
            exact iff_of_false (by simp) fun both => absurd both.1 (by omega)
      · rw [position, if_neg here]
        cases i with
        | zero => simp [here]
        | succ i =>
            rw [Option.map_eq_some_iff]
            simp only [Nat.add_right_cancel_iff, exists_eq_right, ih, List.take_succ_cons, List.sum_cons]
            omega

theorem exists_position {ws : List ℕ} {pick : ℕ} (below : pick < ws.sum) :
    ∃ i, position ws pick = some i := by
  induction ws generalizing pick with
  | nil => cases below
  | cons w ws ih =>
      rw [position]
      split
      · exact ⟨0, rfl⟩
      · rw [List.sum_cons] at below
        obtain ⟨i, found⟩ := ih (by omega : pick - w < ws.sum)
        exact ⟨i + 1, by rw [found]; rfl⟩

/-- Where the walk stops there is an entry, and it has weight. -/
theorem position_weight {ws : List ℕ} {pick i : ℕ} (found : position ws pick = some i) :
    0 < ws.getD i 0 := by
  have inside := position_eq_some_iff.mp found
  rw [sum_take_succ] at inside
  omega

/-- Each entry is chosen by as many numbers below the total as its weight. -/
theorem card_position (ws : List ℕ) (i : ℕ) :
    ((Finset.range ws.sum).filter fun pick => position ws pick = some i).card = ws.getD i 0 := by
  have interval : ((Finset.range ws.sum).filter fun pick => position ws pick = some i) =
      Finset.Ico (ws.take i).sum (ws.take (i + 1)).sum := by
    ext pick
    have := sum_take_le ws (i + 1)
    rw [Finset.mem_filter, Finset.mem_range, position_eq_some_iff, Finset.mem_Ico]
    omega
  rw [interval, Nat.card_Ico, sum_take_succ, Nat.add_sub_cancel_left]

end WeightedChoice
