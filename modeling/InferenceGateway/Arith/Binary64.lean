import Mathlib

/-! Rounding of rationals to 53 significant bits, ties to even. The exponent range
is not bounded: subnormals and overflow are outside this layer. -/
namespace Binary64

def roundHalfEven (x : ℚ) : Int :=
  let below := ⌊x⌋
  if x - below < 1 / 2 then below
  else if 1 / 2 < x - below then below + 1
  else if below % 2 = 0 then below else below + 1

/-- The distance between neighbouring significands at the magnitude of `q`. -/
def ulp (q : ℚ) : ℚ := 2 ^ (Int.log 2 |q| - 52)

def round (q : ℚ) : ℚ := if q = 0 then 0 else roundHalfEven (q / ulp q) * ulp q

def div (a b : ℚ) : ℚ := round (a / b)

/-- What a float64 variable may hold. -/
inductive Value where
  | finite (q : ℚ)
  | infinite (negative : Bool)
  | nan
  deriving DecidableEq

/-- The comparison `<` of float64 values; every comparison with NaN is false. -/
def Value.lt : Value → Value → Bool
  | .finite a, .finite b => decide (a < b)
  | .infinite negative, .finite _ => negative
  | .finite _, .infinite negative => !negative
  | .infinite a, .infinite b => a && !b
  | .nan, _ | _, .nan => false

def Value.le : Value → Value → Bool
  | .finite a, .finite b => decide (a ≤ b)
  | .infinite negative, .finite _ => negative
  | .finite _, .infinite negative => !negative
  | .infinite a, .infinite b => a || !b
  | .nan, _ | _, .nan => false

theorem Value.le_nan (a : Value) : a.le .nan = false := by
  cases a <;> rfl

/-- What fails `<` meets `≥`, NaN apart. -/
theorem Value.le_iff_of_not_lt {a b : Value} (h : a.lt b = false) :
    b.le a = true ↔ a ≠ .nan ∧ b ≠ .nan := by
  cases a with
  | finite x => cases b <;> simp_all [Value.lt, Value.le]
  | infinite negative => cases b <;> cases negative <;> simp_all [Value.lt, Value.le]
  | nan => cases b <;> simp [Value.le]

theorem Value.le_ne_nan {a b : Value} (h : a.le b = true) : a ≠ .nan ∧ b ≠ .nan := by
  cases a <;> cases b <;> simp_all [Value.le]

theorem Value.le_finite_of_le {a : Value} {x y : ℚ} (h : a.le (.finite x) = true) (order : x ≤ y) :
    a.le (.finite y) = true := by
  cases a with
  | finite q =>
      simp only [Value.le, decide_eq_true_eq] at h ⊢
      exact h.trans order
  | infinite negative => exact h
  | nan => cases h

theorem Value.le_self {a : Value} (number : a ≠ .nan) : a.le a = true := by
  cases a <;> simp_all [Value.le]

/-- What is at least something at or above `a` is not below `a`. -/
theorem Value.not_lt_of_le {a b c : Value} (first : a.le b = true) (second : b.le c = true) :
    c.lt a = false := by
  cases a with
  | finite x =>
      cases b with
      | finite y =>
          cases c with
          | finite z =>
              simp only [Value.le, decide_eq_true_eq] at first second
              simp only [Value.lt, decide_eq_false_iff_not, not_lt]
              exact first.trans second
          | infinite negative => simpa [Value.le, Value.lt] using second
          | nan => simp [Value.le] at second
      | infinite negative => cases c <;> simp_all [Value.le, Value.lt]
      | nan => simp [Value.le] at first
  | infinite negative =>
      cases negative <;> cases b <;> cases c <;> simp_all [Value.le, Value.lt]
  | nan => simp [Value.le] at first

end Binary64
