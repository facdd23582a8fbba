import InferenceGateway.Retry.Backoff

/-! The window FullJitterBackoff draws from, in 64-bit arithmetic and over the integers. -/
namespace Gateway.Retry
open Gateway.Providers Interaction Interaction.Program

/-- A signed word replaced by the cap when it is not positive or above it. -/
def capped (word cap : Int) : Int := if word ≤ 0 ∨ cap < word then cap else word

theorem capped_of_fits {x cap : Int} (positive : 0 < x) (fits : x < 2 ^ 63) :
    capped (x.bmod (2 ^ 64)) cap = min x cap := by
  have same : x.bmod (2 ^ 64) = x := by
    apply Int.bmod_eq_of_le <;> omega
  rw [same, capped]
  split <;> omega

/-- A wrapped product is replaced by the cap, unless its residue lies below it. -/
theorem capped_eq_cap_iff {x cap : Int} (positive : 0 < cap) (small : cap < 2 ^ 63) :
    capped (x.bmod (2 ^ 64)) cap = cap ↔ x % 2 ^ 64 = 0 ∨ cap ≤ x % 2 ^ 64 := by
  have residue : x.bmod (2 ^ 64) = if x % 2 ^ 64 < 2 ^ 63 then x % 2 ^ 64 else x % 2 ^ 64 - 2 ^ 64 := by
    rw [Int.bmod]
    norm_num
  have nonneg : 0 ≤ x % 2 ^ 64 := Int.emod_nonneg _ (by norm_num)
  rw [residue, capped]
  split <;> split <;> omega

/-- The shift is a power of two for every exponent the clamp lets through. -/
theorem toInt_one_shiftLeft {k : Nat} (small : k ≤ 62) :
    ((1 : Int64) <<< Int64.ofInt k).toInt = 2 ^ k := by
  have table : ∀ k : Nat, k < 63 → ((1 : Int64) <<< Int64.ofInt k).toInt = 2 ^ k := by decide
  exact table k (Nat.lt_succ_of_le small)

/-- The product before the cap, over the integers. -/
def product (attempt : Nat) (base : Duration) : Int := base.toInt * 2 ^ min attempt 62

theorem toInt_jitterWindow (attempt : Nat) (base maxBackoff : Duration) :
    (jitterWindow attempt base maxBackoff).toInt =
      capped ((product attempt base).bmod (2 ^ 64)) maxBackoff.toInt := by
  have clamp : min 62 (max 0 (attempt : Int)) = ((min attempt 62 : Nat) : Int) := by omega
  have word : (base * ((1 : Int64) <<< Int64.ofInt ((min attempt 62 : Nat) : Int))).toInt =
      (product attempt base).bmod (2 ^ 64) := by
    rw [Int64.toInt_mul, toInt_one_shiftLeft (Nat.min_le_right _ _), product]
  unfold jitterWindow
  simp only [clamp]
  rw [apply_ite Int64.toInt, word, capped]
  simp only [Int64.le_iff_toInt_le, Int64.lt_iff_toInt_lt, word, Int64.toInt_zero]

/-- The product over the integers reaches the cap, unless it still fits a word. -/
theorem min_eq_cap {attempt : Nat} {base cap : Int} (positive : 0 < base) (small : cap < 2 ^ 63)
    (wraps : ¬ (attempt ≤ 62 ∧ base * 2 ^ attempt < 2 ^ 63)) : min (base * 2 ^ attempt) cap = cap := by
  apply min_eq_right
  have large : 2 ^ 63 ≤ base * 2 ^ attempt := by
    by_cases shifted : attempt ≤ 62
    · exact not_lt.mp fun fits => wraps ⟨shifted, fits⟩
    · have power : (2 : Int) ^ 63 ≤ 2 ^ attempt := pow_le_pow_right₀ (by norm_num) (by omega)
      calc (2 : Int) ^ 63 ≤ 2 ^ attempt := power
        _ = 1 * 2 ^ attempt := (one_mul _).symm
        _ ≤ base * 2 ^ attempt := mul_le_mul_of_nonneg_right (by omega) (by positivity)
  omega

theorem jitterWindow_eq_min_iff {base maxBackoff : Duration} (positive : 0 < base) (attempt : Nat)
    (ordered : base ≤ maxBackoff) :
    (jitterWindow attempt base maxBackoff).toInt = min (base.toInt * 2 ^ attempt) maxBackoff.toInt ↔
      (attempt ≤ 62 ∧ base.toInt * 2 ^ attempt < 2 ^ 63) ∨ product attempt base % 2 ^ 64 = 0 ∨
        maxBackoff.toInt ≤ product attempt base % 2 ^ 64 := by
  have base_pos : 0 < base.toInt := Int64.lt_iff_toInt_lt.mp positive
  have cap_pos : 0 < maxBackoff.toInt := base_pos.trans_le (Int64.le_iff_toInt_le.mp ordered)
  have cap_small : maxBackoff.toInt < 2 ^ 63 := maxBackoff.toInt_lt
  rw [toInt_jitterWindow]
  by_cases fits : attempt ≤ 62 ∧ base.toInt * 2 ^ attempt < 2 ^ 63
  · have same : product attempt base = base.toInt * 2 ^ attempt := by
      rw [product, Nat.min_eq_left fits.1]
    rw [same, capped_of_fits (by positivity) fits.2]
    simp only [fits, and_self, true_or]
  · rw [min_eq_cap base_pos cap_small fits, capped_eq_cap_iff cap_pos cap_small]
    simp only [fits, false_or]

/-- The random source is asked once, for a number below the window. -/
theorem runs_fullJitterBackoff {attempt : Int} {base maxBackoff delay : Duration} {tr : Trace}
    (positive : 0 < jitterWindow attempt base maxBackoff) :
    Runs (fullJitterBackoff attempt base maxBackoff) tr delay ↔
      ∃ r : Below (jitterWindow attempt base maxBackoff),
        tr = [⟨.int63n (jitterWindow attempt base maxBackoff), r⟩] ∧ delay = Int64.ofNat r.val := by
  unfold fullJitterBackoff
  simp only [if_neg (Int64.not_le.mpr positive)]
  rw [runs_perform_bind]
  constructor
  · rintro ⟨r, tr', rfl, rest⟩
    obtain ⟨rfl, rfl⟩ := runs_pure.mp rest
    exact ⟨r, rfl, rfl⟩
  · rintro ⟨r, rfl, rfl⟩
    exact ⟨r, [], rfl, runs_pure.mpr ⟨rfl, rfl⟩⟩

theorem capped_pos {word cap : Int} (positive : 0 < cap) : 0 < capped word cap := by
  unfold capped
  split <;> omega

theorem jitterWindow_pos {base maxBackoff : Duration} (positive : 0 < base)
    (ordered : base ≤ maxBackoff) (attempt : Nat) : 0 < jitterWindow attempt base maxBackoff := by
  have base_pos : 0 < base.toInt := Int64.lt_iff_toInt_lt.mp positive
  rw [Int64.lt_iff_toInt_lt, toInt_jitterWindow]
  exact capped_pos (base_pos.trans_le (Int64.le_iff_toInt_le.mp ordered))

/-- The bound passed to rand.Int63n is the smaller of base * 2^attempt and the cap exactly if the
product fits a word, or has wrapped to zero or to a residue that is not below the cap. -/
theorem jitter_draws_below_min_iff {base maxBackoff : Duration} (positive : 0 < base)
    (ordered : base ≤ maxBackoff) (attempt : Nat) :
    (∀ tr delay, Runs (fullJitterBackoff attempt base maxBackoff) tr delay →
        ∃ window r, tr = [⟨.int63n window, r⟩] ∧
          window.toInt = min (base.toInt * 2 ^ attempt) maxBackoff.toInt) ↔
      (attempt ≤ 62 ∧ base.toInt * 2 ^ attempt < 2 ^ 63) ∨ product attempt base % 2 ^ 64 = 0 ∨
        maxBackoff.toInt ≤ product attempt base % 2 ^ 64 := by
  have asked := @runs_fullJitterBackoff attempt base maxBackoff
  have window_pos := jitterWindow_pos positive ordered attempt
  rw [← jitterWindow_eq_min_iff positive attempt ordered]
  constructor
  · intro bounded
    obtain ⟨window, r, same, bound⟩ := bounded _ _ ((asked window_pos).mpr ⟨0, rfl, rfl⟩)
    cases same
    exact bound
  · intro bound tr delay run
    obtain ⟨r, rfl, -⟩ := (asked window_pos).mp run
    exact ⟨_, r, rfl, bound⟩

theorem third_retry_below_min :
    (0 : Duration) < 200000000 ∧ (200000000 : Duration) ≤ 5000000000 ∧
      ∀ tr delay, Runs (fullJitterBackoff (3 : Nat) 200000000 5000000000) tr delay →
        ∃ window r, tr = [⟨.int63n window, r⟩] ∧
          window.toInt = min ((200000000 : Duration).toInt * 2 ^ 3) (5000000000 : Duration).toInt :=
  ⟨by decide, by decide, (jitter_draws_below_min_iff (by decide) (by decide) 3).mpr
    (.inl (by decide))⟩

/-- (2^40 + 1) * 2^24 is 2^64 + 2^24, and the window 2^24. -/
theorem product_wraps_below_cap :
    (0 : Duration) < 1099511627777 ∧ (1099511627777 : Duration) ≤ 1099511627777 ∧
      ¬ ∀ tr delay, Runs (fullJitterBackoff (24 : Nat) 1099511627777 1099511627777) tr delay →
        ∃ window r, tr = [⟨.int63n window, r⟩] ∧ window.toInt =
          min ((1099511627777 : Duration).toInt * 2 ^ 24) (1099511627777 : Duration).toInt := by
  refine ⟨by decide, by decide, fun bounded => ?_⟩
  have run : Runs (fullJitterBackoff (24 : Nat) 1099511627777 1099511627777)
      [⟨.int63n 16777216, (0 : Below 16777216)⟩] 0 :=
    (runs_fullJitterBackoff (by decide)).mpr ⟨0, by rfl, rfl⟩
  obtain ⟨window, r, same, bound⟩ := bounded _ _ run
  cases same
  revert bound
  decide

end Gateway.Retry
