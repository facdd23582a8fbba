import Mathlib

/-! Token buckets with lazy refill over an ordered field. A bucket is absent while it has
never been touched and then counts as full; its level is recomputed at each use from what
was stored last. -/
namespace TokenBucket
variable {K : Type} [Field K] [LinearOrder K]

structure Stored (K : Type) where
  tokens : K
  last : K

/-- The level at time `t`: full if absent, else refilled since the last write, clamped. -/
def level (cap rate : K) (b : Option (Stored K)) (t : K) : K :=
  match b with
  | none => cap
  | some b => min cap (b.tokens + max 0 (t - b.last) * rate)

inductive Event (K : Type) where
  | take (cost : K)
  | give (delta : K)
  | idle

/-- What an event takes out of the bucket. -/
def Event.net : Event K → K
  | .take cost => cost
  | .give delta => -delta
  | .idle => 0

/-- A withdrawal stores the level less the cost, a deposit is clamped at capacity. -/
def Event.apply (cap rate : K) (b : Option (Stored K)) (t : K) : Event K → Option (Stored K)
  | .take cost => some ⟨level cap rate b t - cost, t⟩
  | .give delta => some ⟨min cap (level cap rate b t + delta), t⟩
  | .idle => b

def run (cap rate : K) : Option (Stored K) → List (K × Event K) → Option (Stored K)
  | b, [] => b
  | b, (t, ev) :: rest => run cap rate (ev.apply cap rate b t) rest

def spent (events : List (K × Event K)) : K := (events.map fun ev => ev.2.net).sum

/-- What is stored; an absent bucket holds its capacity. -/
def held (cap : K) : Option (Stored K) → K
  | none => cap
  | some b => b.tokens

theorem level_le_cap {cap rate t : K} {b : Option (Stored K)} : level cap rate b t ≤ cap := by
  cases b with
  | none => exact le_refl cap
  | some b => exact min_le_left _ _

/-- An absent bucket and a stored one are at the same level once the refill fills it. -/
theorem level_none_eq_iff {cap rate t : K} {b : Stored K} :
    level cap rate none t = level cap rate (some b) t ↔
      cap ≤ b.tokens + max 0 (t - b.last) * rate := by
  unfold level
  rw [eq_comm]
  exact min_eq_left_iff

variable [IsStrictOrderedRing K] {cap rate s t e : K} {b : Option (Stored K)}

/-- The level rises at most at the refill rate. -/
theorem level_le_add (nonneg : 0 ≤ rate) (later : s ≤ t) :
    level cap rate b t ≤ level cap rate b s + rate * (t - s) := by
  have grown : 0 ≤ rate * (t - s) := mul_nonneg nonneg (sub_nonneg.mpr later)
  cases b with
  | none => simpa [level] using grown
  | some b =>
      have elapsed : max 0 (t - b.last) ≤ max 0 (s - b.last) + (t - s) := by
        apply max_le
        · exact add_nonneg (le_max_left 0 _) (sub_nonneg.mpr later)
        · calc t - b.last = (s - b.last) + (t - s) := by ring
            _ ≤ max 0 (s - b.last) + (t - s) := add_le_add_left (le_max_right 0 _) _
      have refilled : max 0 (t - b.last) * rate ≤ max 0 (s - b.last) * rate + rate * (t - s) := by
        calc max 0 (t - b.last) * rate ≤ (max 0 (s - b.last) + (t - s)) * rate :=
              mul_le_mul_of_nonneg_right elapsed nonneg
          _ = max 0 (s - b.last) * rate + rate * (t - s) := by ring
      unfold level
      rw [← min_add_add_right]
      apply min_le_min
      · exact le_add_of_nonneg_right grown
      · rw [add_assoc]
        exact add_le_add_right refilled _

/-- At its own time an event leaves no more than the level less what it took, neither as
the new level nor as the new contents when it wrote. -/
theorem apply_le (ev : Event K) :
    ev.net + level cap rate (ev.apply cap rate b t) t ≤ level cap rate b t := by
  cases ev with
  | take cost =>
      have := min_le_right cap (level cap rate b t - cost + max 0 (t - t) * rate)
      simp only [Event.net, Event.apply, level] at this ⊢
      simp only [sub_self, max_self, zero_mul, add_zero] at this ⊢
      linarith
  | give delta =>
      have outer := min_le_right cap (min cap (level cap rate b t + delta) + max 0 (t - t) * rate)
      have inner := min_le_right cap (level cap rate b t + delta)
      simp only [Event.net, Event.apply, level] at outer inner ⊢
      simp only [sub_self, max_self, zero_mul, add_zero] at outer inner ⊢
      linarith
  | idle => simp [Event.net, Event.apply]

theorem held_apply_le {bound : K} (ev : Event K) (low : level cap rate b t ≤ bound)
    (kept : held cap b ≤ bound ∨ ev ≠ .idle) :
    ev.net + held cap (ev.apply cap rate b t) ≤ bound := by
  cases ev with
  | take cost =>
      simp only [Event.net, Event.apply, held]
      linarith
  | give delta =>
      have := min_le_right cap (level cap rate b t + delta)
      simp only [Event.net, Event.apply, held]
      linarith
  | idle => simpa [Event.net, Event.apply] using kept

/-- Over any events at non-decreasing times, net withdrawals and what remains are covered
by the level at the start and the refill since; so are the contents, if they were covered
at the start or some event wrote them. -/
theorem spent_add_level_le (nonneg : 0 ≤ rate) {events : List (K × Event K)}
    (order : (s :: events.map Prod.fst).Pairwise (· ≤ ·)) (last : ∀ ev ∈ events, ev.1 ≤ e)
    (window : s ≤ e) {bound : K} (low : level cap rate b s ≤ bound) :
    spent events + level cap rate (run cap rate b events) e ≤ bound + rate * (e - s) ∧
      (held cap b ≤ bound ∨ (∃ ev ∈ events, ev.2 ≠ .idle) →
        spent events + held cap (run cap rate b events) ≤ bound + rate * (e - s)) := by
  induction events generalizing s b bound with
  | nil =>
      have grown : 0 ≤ rate * (e - s) := mul_nonneg nonneg (sub_nonneg.mpr window)
      have rise : level cap rate b e ≤ level cap rate b s + rate * (e - s) :=
        level_le_add nonneg window
      simp only [spent, run, List.map_nil, List.sum_nil, zero_add]
      refine ⟨rise.trans (add_le_add_left low _), ?_⟩
      rintro (kept | ⟨ev, member, -⟩)
      · exact le_add_of_le_of_nonneg kept grown
      · cases member
  | cons ev events ih =>
      rcases ev with ⟨t, ev⟩
      simp only [List.map_cons, List.pairwise_cons, List.mem_cons, forall_eq_or_imp] at order
      obtain ⟨⟨later, -⟩, ordered⟩ := order
      have here : t ≤ e := last _ List.mem_cons_self
      have rise : level cap rate b t ≤ bound + rate * (t - s) :=
        (level_le_add nonneg later).trans (add_le_add_left low _)
      have left : ev.net + level cap rate (ev.apply cap rate b t) t ≤ level cap rate b t :=
        apply_le ev
      have start : level cap rate (ev.apply cap rate b t) t ≤ bound + rate * (t - s) - ev.net :=
        le_sub_iff_add_le'.mpr (left.trans rise)
      obtain ⟨levels, contents⟩ := ih (List.pairwise_cons.mpr ordered)
        (fun ev member => last ev (List.mem_cons_of_mem _ member)) here start
      have total : spent ((t, ev) :: events) = ev.net + spent events := by
        simp [spent]
      have split : bound + rate * (e - s) =
          ev.net + (bound + rate * (t - s) - ev.net + rate * (e - t)) := by ring
      refine ⟨?_, ?_⟩
      · rw [total, run, split, add_assoc]
        exact add_le_add_right levels _
      intro kept
      have grown : 0 ≤ rate * (t - s) := mul_nonneg nonneg (sub_nonneg.mpr later)
      have covered : held cap (ev.apply cap rate b t) ≤ bound + rate * (t - s) - ev.net ∨
          ∃ ev ∈ events, ev.2 ≠ .idle := by
        by_cases wrote : held cap b ≤ bound ∨ ev ≠ .idle
        · have written := held_apply_le ev rise
            (wrote.imp_left fun kept => le_add_of_le_of_nonneg kept grown)
          exact .inl (le_sub_iff_add_le'.mpr written)
        · simp only [not_or, not_not] at wrote
          simp only [wrote.1, false_or, List.mem_cons, exists_eq_or_imp, wrote.2, ne_eq,
            not_true_eq_false] at kept
          exact .inr kept
      rw [total, run, split, add_assoc]
      exact add_le_add_right (contents covered) _

end TokenBucket
