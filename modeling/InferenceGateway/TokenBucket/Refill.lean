import InferenceGateway.TokenBucket.Basic

/-! How lazy refill composes: two steps of it make one, a withdrawal given back in full
leaves no trace, and what a run of events credits is measured by how far its clock advances. -/
namespace TokenBucket
variable {K : Type} [Field K] [LinearOrder K]

/-- The level as it is stored by the first write from then on. -/
theorem level_some {cap rate tokens last t : K} :
    level cap rate (some ⟨tokens, last⟩) t = min cap (tokens + max 0 (t - last) * rate) := rfl

section Ordered
variable [IsStrictOrderedRing K] {cap rate s t u c : K} {b : Option (Stored K)}

theorem level_some_later {tokens : K} (later : s ≤ t) :
    level cap rate (some ⟨tokens, s⟩) t = min cap (tokens + (t - s) * rate) := by
  rw [level_some, max_eq_right (sub_nonneg.mpr later)]

theorem min_min_add {a d : K} (nonneg : 0 ≤ d) : min cap (min cap a + d) = min cap (a + d) := by
  rw [← min_add_add_right, ← min_assoc, min_eq_left (le_add_of_nonneg_right nonneg)]

/-- From a level taken no earlier than the last write, refill goes on as from what is stored. -/
theorem level_later (nonneg : 0 ≤ rate) (current : ∀ stored, b = some stored → stored.last ≤ s)
    (later : s ≤ t) : level cap rate b t = min cap (level cap rate b s + (t - s) * rate) := by
  have grown : 0 ≤ (t - s) * rate := mul_nonneg (sub_nonneg.mpr later) nonneg
  cases b with
  | none =>
      change cap = min cap (cap + (t - s) * rate)
      rw [min_eq_left (le_add_of_nonneg_right grown)]
  | some stored =>
      have written : stored.last ≤ s := current stored rfl
      have split : (t - stored.last) * rate = (s - stored.last) * rate + (t - s) * rate := by ring
      rw [level_some_later (written.trans later), level_some_later written, min_min_add grown,
        split, add_assoc]

/-- No level goes down by waiting. -/
theorem level_mono (nonneg : 0 ≤ rate) (later : s ≤ t) : level cap rate b s ≤ level cap rate b t := by
  cases b with
  | none => exact le_refl cap
  | some stored =>
      have elapsed : max 0 (s - stored.last) ≤ max 0 (t - stored.last) :=
        max_le_max (le_refl 0) (sub_le_sub_right later _)
      exact min_le_min (le_refl cap) (add_le_add (le_refl _) (mul_le_mul_of_nonneg_right elapsed nonneg))

/-- Whether a wait that covers the deficit makes up for it: the bucket must be large enough,
and its clock not so far behind the last write that the wait is spent on catching up. -/
theorem le_level_after_wait_iff {wait : K} (positive : 0 < rate) (low : level cap rate b s < c)
    (covers : (c - level cap rate b s) / rate ≤ wait) :
    c ≤ level cap rate b (s + wait) ↔
      c ≤ cap ∧ ∀ stored, b = some stored →
        stored.last - s ≤ wait - (c - level cap rate b s) / rate := by
  have deficit : 0 < c - level cap rate b s := sub_pos.mpr low
  have earned : c - level cap rate b s ≤ wait * rate := (div_le_iff₀ positive).mp covers
  cases b with
  | none =>
      change cap < c at low
      exact iff_of_false (not_le.mpr low) fun both => absurd both.1 (not_le.mpr low)
  | some stored =>
      have behind : stored.last - s ≤ wait - (c - level cap rate (some stored) s) / rate ↔
          c - level cap rate (some stored) s ≤ (s + wait - stored.last) * rate := by
        rw [le_sub_comm, div_le_iff₀ positive]
        congr! 2
        ring
      simp only [Option.some.injEq, forall_eq', behind]
      rw [show level cap rate (some stored) (s + wait) = min cap _ from rfl, le_min_iff]
      apply and_congr_right
      intro fits
      have stands : level cap rate (some stored) s =
          stored.tokens + max 0 (s - stored.last) * rate := by
        apply min_eq_right
        by_contra above
        rw [show level cap rate (some stored) s = cap from min_eq_left (not_le.mp above).le] at low
        exact absurd fits (not_le.mpr low)
      rcases le_total stored.last s with written | ahead
      · rw [max_eq_right (sub_nonneg.mpr written)] at stands
        have waited : stored.last ≤ s + wait := by
          have : 0 ≤ wait := (div_nonneg deficit.le positive.le).trans covers
          linarith
        have total : (s + wait - stored.last) * rate = (s - stored.last) * rate + wait * rate := by ring
        have more : 0 ≤ (s - stored.last) * rate :=
          mul_nonneg (sub_nonneg.mpr written) positive.le
        rw [max_eq_right (sub_nonneg.mpr waited), total]
        exact iff_of_true (by linarith) (by linarith)
      · rw [max_eq_left (sub_nonpos.mpr ahead), zero_mul, add_zero] at stands
        rw [stands] at deficit ⊢
        rcases le_total 0 (s + wait - stored.last) with caught | short
        · rw [max_eq_right caught, sub_le_iff_le_add']
        · have lost : (s + wait - stored.last) * rate ≤ 0 := mul_nonpos_of_nonpos_of_nonneg short positive.le
          rw [max_eq_left short, zero_mul]
          exact iff_of_false (by linarith) (by linarith)

/-- A withdrawal given back in full leaves the level as if neither had happened. -/
theorem level_refund (nonneg : 0 ≤ rate) (current : ∀ stored, b = some stored → stored.last ≤ s)
    (later : s ≤ t) (after : t ≤ u) (cost : 0 ≤ c) :
    level cap rate ((Event.give c).apply cap rate ((Event.take c).apply cap rate b s) t) u =
      level cap rate b u := by
  have untouched : level cap rate b u =
      min cap (min cap (level cap rate b s + (t - s) * rate) + (u - t) * rate) := by
    rw [← level_later nonneg current later]
    exact level_later nonneg (fun stored same => (current stored same).trans later) after
  have refunded : min cap (min cap (level cap rate b s - c + (t - s) * rate) + c) =
      min cap (level cap rate b s + (t - s) * rate) := by
    rw [min_min_add cost]
    congr 1
    ring
  simp only [Event.apply]
  rw [level_some_later after, level_some_later later, refunded, untouched]

end Ordered

end TokenBucket
