import Mathlib

/-! A ring of counters over the last `n` ticks of a clock. Each slot remembers the tick it
counts; it is taken over lazily, by the first addition of a later tick with its index. As
long as the clock never goes back, the ring counts exactly the sliding window. -/
namespace SlidingWindow
variable {M : Type} [AddCommMonoid M]

structure Slot (M : Type) where
  tick : Int
  count : M

/-- Whether a tick lies among the last `n` at `now`. -/
def Within (n now tick : Int) : Prop := 0 ≤ now - tick ∧ now - tick < n

instance (n now tick : Int) : Decidable (Within n now tick) := inferInstanceAs (Decidable (_ ∧ _))

def Slot.contribution (n now : Int) (slot : Slot M) : M :=
  if Within n now slot.tick then slot.count else 0

def index (n tick : Int) : Nat := (tick % n).toNat

/-- The slot after `amount` is added at `tick`. -/
def Slot.add (slot : Slot M) (tick : Int) (amount : M) : Slot M :=
  ⟨tick, (if slot.tick ≠ tick then 0 else slot.count) + amount⟩

def add (n : Int) (ring : List (Slot M)) (tick : Int) (amount : M) : List (Slot M) :=
  ring.modify (index n tick) fun slot => slot.add tick amount

def total (n now : Int) (ring : List (Slot M)) : M :=
  (ring.map fun slot => slot.contribution n now).sum

/-- What the window holds of a full log of additions. -/
def windowed (n now : Int) (log : List (Int × M)) : M :=
  (log.map fun entry => if now - n < entry.1 then entry.2 else 0).sum

/-- The ring counts the log: a slot in use has the index of its tick, which is a tick of
the log, and the total is the window's at every time from the last tick on. -/
structure Tracks (n : Int) (ring : List (Slot M)) (log : List (Int × M)) : Prop where
  size : ring.length = n.toNat
  placed : ∀ i slot, ring[i]? = some slot → slot.count = 0 ∨
    index n slot.tick = i ∧ ∃ entry ∈ log, entry.1 = slot.tick
  counts : ∀ now, (∀ entry ∈ log, entry.1 ≤ now) → total n now ring = windowed n now log

theorem index_lt {n : Int} (positive : 0 < n) (tick : Int) : index n tick < n.toNat := by
  have := Int.emod_nonneg tick positive.ne'
  have := Int.emod_lt_of_pos tick positive
  unfold index
  omega

/-- Of two ticks with one index, the earlier is at least a whole window back. -/
theorem add_le_of_index_eq {n s t : Int} (positive : 0 < n) (same : index n s = index n t)
    (earlier : s < t) : s + n ≤ t := by
  have hs := Int.emod_nonneg s positive.ne'
  have ht := Int.emod_nonneg t positive.ne'
  have cong : t % n = s % n := by
    unfold index at same
    omega
  obtain ⟨k, multiple⟩ := Int.ModEq.dvd (show s ≡ t [ZMOD n] from cong.symm)
  have once : 1 ≤ k := by
    by_contra none
    have : n * k ≤ 0 := Int.mul_nonpos_of_nonneg_of_nonpos positive.le (by omega)
    omega
  have : n * 1 ≤ n * k := Int.mul_le_mul_of_nonneg_left once positive.le
  omega

theorem tracks_replicate (n tick : Int) : Tracks (M := M) n (List.replicate n.toNat ⟨tick, 0⟩) [] where
  size := List.length_replicate
  placed i slot found := by
    rw [List.getElem?_replicate] at found
    split at found
    · cases found
      exact .inl rfl
    · cases found
  counts now _ := by
    simp [total, windowed, Slot.contribution]

theorem total_cons (n now : Int) (slot : Slot M) (ring : List (Slot M)) :
    total n now (slot :: ring) = slot.contribution n now + total n now ring := rfl

theorem windowed_append (n now : Int) (log : List (Int × M)) (tick : Int) (amount : M) :
    windowed n now (log ++ [(tick, amount)]) =
      windowed n now log + if now - n < tick then amount else 0 := by
  simp [windowed]

/-- A slot that is taken over had left the window; one that is not keeps its count. -/
theorem Slot.add_contribution {n now : Int} {slot : Slot M} {tick : Int} {amount : M}
    (positive : 0 < n) (used : slot.count = 0 ∨ index n slot.tick = index n tick ∧ slot.tick ≤ tick)
    (current : tick ≤ now) :
    (slot.add tick amount).contribution n now =
      slot.contribution n now + if now - n < tick then amount else 0 := by
  have inside : Within n now tick ↔ now - n < tick := by
    unfold Within
    omega
  by_cases same : slot.tick = tick
  · simp only [contribution, Slot.add, same, ne_eq, not_true_eq_false, if_false, inside]
    split <;> simp
  · have left : slot.contribution n now = 0 := by
      rcases used with unused | ⟨aligned, order⟩
      · simp [contribution, unused]
      · have := add_le_of_index_eq positive aligned (lt_of_le_of_ne order same)
        apply if_neg
        unfold Within
        omega
    simp only [contribution] at left
    simp only [contribution, Slot.add, ne_eq, same, not_false_eq_true, if_true, inside, zero_add, left]

theorem total_add {n now : Int} {ring : List (Slot M)} {i : Nat} {slot changed : Slot M} {amount : M}
    (found : ring[i]? = some slot)
    (more : changed.contribution n now = slot.contribution n now + amount) :
    total n now (ring.set i changed) = total n now ring + amount := by
  obtain ⟨bound, rfl⟩ := List.getElem?_eq_some_iff.mp found
  unfold total
  rw [List.map_set, List.sum_set, if_pos (by simpa using bound), more]
  conv_rhs => rw [← List.sum_take_add_sum_drop (ring.map _) i,
    List.drop_eq_getElem_cons (by simpa using bound), List.sum_cons, List.getElem_map]
  abel

/-- One addition at a tick no earlier than those before it. -/
theorem Tracks.add {n : Int} {ring : List (Slot M)} {log : List (Int × M)} {tick : Int}
    (h : Tracks n ring log) (positive : 0 < n) (order : ∀ entry ∈ log, entry.1 ≤ tick)
    (amount : M) : Tracks n (SlidingWindow.add n ring tick amount) (log ++ [(tick, amount)]) := by
  have bound : index n tick < ring.length := h.size ▸ index_lt positive tick
  obtain ⟨slot, found⟩ : ∃ slot, ring[index n tick]? = some slot :=
    ⟨_, List.getElem?_eq_getElem bound⟩
  have written : SlidingWindow.add n ring tick amount =
      ring.set (index n tick) (slot.add tick amount) := by
    rw [SlidingWindow.add, List.modify_eq_set_getElem?, found]
    rfl
  rw [written]
  constructor
  · rw [List.length_set]
    exact h.size
  · intro i other stored
    by_cases same : index n tick = i
    · subst same
      rw [List.getElem?_set_self bound] at stored
      cases stored
      exact .inr ⟨rfl, (tick, amount), by simp, rfl⟩
    · rw [List.getElem?_set_ne same] at stored
      rcases h.placed i other stored with unused | ⟨aligned, entry, member, at_⟩
      · exact .inl unused
      · exact .inr ⟨aligned, entry, List.mem_append_left _ member, at_⟩
  · intro now latest
    have current : tick ≤ now := latest (tick, amount) (by simp)
    have used : slot.count = 0 ∨ index n slot.tick = index n tick ∧ slot.tick ≤ tick := by
      rcases h.placed _ slot found with unused | ⟨aligned, entry, member, at_⟩
      · exact .inl unused
      · exact .inr ⟨aligned, at_ ▸ order entry member⟩
    rw [total_add found (Slot.add_contribution positive used current), windowed_append,
      h.counts now fun entry member => latest entry (List.mem_append_left _ member)]

end SlidingWindow
