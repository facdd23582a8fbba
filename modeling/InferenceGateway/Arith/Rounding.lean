import InferenceGateway.Arith.Binary64

/-! Rounding to 53 bits keeps order and powers of two. -/
namespace Binary64

theorem roundHalfEven_intCast (n : Int) : roundHalfEven n = n := by
  simp [roundHalfEven]

theorem floor_le_roundHalfEven (x : ℚ) : ⌊x⌋ ≤ roundHalfEven x ∧ roundHalfEven x ≤ ⌊x⌋ + 1 := by
  unfold roundHalfEven
  grind

theorem roundHalfEven_mono {x y : ℚ} (order : x ≤ y) : roundHalfEven x ≤ roundHalfEven y := by
  rcases lt_or_eq_of_le (Int.floor_le_floor order) with apart | same
  · have left := (floor_le_roundHalfEven x).2
    have right := (floor_le_roundHalfEven y).1
    omega
  · unfold roundHalfEven
    simp only [same]
    have shifted : x - (⌊y⌋ : ℚ) ≤ y - ⌊y⌋ := sub_le_sub_right order _
    grind

theorem round_of_pos {q : ℚ} (positive : 0 < q) : round q = roundHalfEven (q / ulp q) * ulp q :=
  if_neg positive.ne'

theorem ulp_pos (q : ℚ) : 0 < ulp q := by
  unfold ulp
  positivity

theorem ulp_of_pos {q : ℚ} (positive : 0 < q) : ulp q = 2 ^ (Int.log 2 q - 52) := by
  rw [ulp, abs_of_pos positive]

theorem round_zero : round 0 = 0 := if_pos rfl

/-- A multiple of the spacing at or below `q` is at or below the value it is rounded to. -/
theorem le_round {q : ℚ} (positive : 0 < q) {n : Int} (below : n * ulp q ≤ q) : n * ulp q ≤ round q := by
  have scaled : (n : ℚ) ≤ q / ulp q := (le_div_iff₀ (ulp_pos q)).mpr below
  have rounded : n ≤ roundHalfEven (q / ulp q) := by
    rw [← roundHalfEven_intCast n]
    exact roundHalfEven_mono scaled
  rw [round_of_pos positive]
  exact mul_le_mul_of_nonneg_right (Int.cast_le.mpr rounded) (ulp_pos q).le

theorem round_le {q : ℚ} (positive : 0 < q) {n : Int} (above : q ≤ n * ulp q) : round q ≤ n * ulp q := by
  have scaled : q / ulp q ≤ (n : ℚ) := (div_le_iff₀ (ulp_pos q)).mpr above
  have rounded : roundHalfEven (q / ulp q) ≤ n := by
    rw [← roundHalfEven_intCast n]
    exact roundHalfEven_mono scaled
  rw [round_of_pos positive]
  exact mul_le_mul_of_nonneg_right (Int.cast_le.mpr rounded) (ulp_pos q).le

theorem two_pow_mul_ulp {q : ℚ} (positive : 0 < q) (n : ℕ) :
    ((2 ^ n : Int) : ℚ) * ulp q = 2 ^ (Int.log 2 q - 52 + n) := by
  rw [ulp_of_pos positive, Int.cast_pow, Int.cast_ofNat, mul_comm, ← zpow_natCast,
    ← zpow_add₀ (by norm_num)]

/-- A positive number is rounded within its binade. -/
theorem round_binade {q : ℚ} (positive : 0 < q) :
    (2 : ℚ) ^ Int.log 2 q ≤ round q ∧ round q ≤ 2 ^ (Int.log 2 q + 1) := by
  have lower : ((2 ^ 52 : Int) : ℚ) * ulp q = 2 ^ Int.log 2 q := by
    rw [two_pow_mul_ulp positive, Nat.cast_ofNat, sub_add_cancel]
  have upper : ((2 ^ 53 : Int) : ℚ) * ulp q = 2 ^ (Int.log 2 q + 1) := by
    rw [two_pow_mul_ulp positive, show Int.log 2 q - 52 + ((53 : ℕ) : Int) = Int.log 2 q + 1 by omega]
  constructor
  · rw [← lower]
    apply le_round positive
    rw [lower]
    exact Int.zpow_log_le_self (by norm_num) positive
  · rw [← upper]
    apply round_le positive
    rw [upper]
    exact (Int.lt_zpow_succ_log_self (by norm_num) q).le

theorem round_mono {x y : ℚ} (nonneg : 0 ≤ x) (order : x ≤ y) : round x ≤ round y := by
  rcases eq_or_lt_of_le nonneg with rfl | positive
  · rw [round_zero]
    rcases eq_or_lt_of_le order with rfl | above
    · exact round_zero.ge
    · exact (by positivity : (0 : ℚ) ≤ 2 ^ Int.log 2 y).trans (round_binade above).1
  · have above : 0 < y := positive.trans_le order
    rcases lt_or_eq_of_le (Int.log_mono_right positive order : Int.log 2 x ≤ Int.log 2 y) with apart | same
    · calc round x ≤ 2 ^ (Int.log 2 x + 1) := (round_binade positive).2
        _ ≤ 2 ^ Int.log 2 y := zpow_le_zpow_right₀ (by norm_num) apart
        _ ≤ round y := (round_binade above).1
    · have spacing : ulp x = ulp y := by rw [ulp_of_pos positive, ulp_of_pos above, same]
      rw [round_of_pos positive, round_of_pos above, spacing]
      exact mul_le_mul_of_nonneg_right (Int.cast_le.mpr (roundHalfEven_mono
        (div_le_div_of_nonneg_right order (ulp_pos y).le))) (ulp_pos y).le

theorem round_nonneg {q : ℚ} (nonneg : 0 ≤ q) : 0 ≤ round q := round_zero ▸ round_mono le_rfl nonneg

theorem round_two_zpow (z : Int) : round (2 ^ z) = 2 ^ z := by
  have positive : (0 : ℚ) < 2 ^ z := by positivity
  have log : Int.log 2 ((2 : ℚ) ^ z) = z := Int.log_zpow (by norm_num) z
  have whole : ((2 ^ 52 : Int) : ℚ) * ulp (2 ^ z) = 2 ^ z := by
    rw [two_pow_mul_ulp positive, log, Nat.cast_ofNat, sub_add_cancel]
  apply le_antisymm
  · exact (round_le positive whole.ge).trans whole.le
  · exact whole.ge.trans (le_round positive whole.le)

theorem round_two_pow (n : ℕ) : round (2 ^ n) = 2 ^ n := by
  have power := round_two_zpow n
  rw [zpow_natCast] at power
  exact power

theorem round_half_pow (n : ℕ) : round ((1 / 2) ^ n) = (1 / 2) ^ n := by
  have power := round_two_zpow (-n)
  rw [zpow_neg, zpow_natCast, ← one_div, ← one_div_pow] at power
  exact power

theorem round_one : round 1 = 1 := round_two_zpow 0

end Binary64
