import InferenceGateway.Arith.Binary64

/-! Binary interchange formats: rounding to nearest with ties to even, gradual underflow
and overflow to infinity, and the operations rounded that way. The sign of a zero is not
kept. -/
namespace Ieee
open Binary64 (Value roundHalfEven)

/-- Values are multiples of `2 ^ minExponent` with at most `precision` significant bits
and magnitude below `2 ^ maxExponent`. -/
structure Format where
  precision : Nat
  minExponent : Int
  maxExponent : Nat

def binary32 : Format := ⟨24, -149, 128⟩
def binary64 : Format := ⟨53, -1074, 1024⟩

namespace Format

/-- The distance between neighbouring values at the magnitude of `q`. -/
def quantum (f : Format) (q : ℚ) : ℚ :=
  2 ^ max (Int.log 2 |q| + 1 - f.precision) f.minExponent

def round (f : Format) (q : ℚ) : Value :=
  let nearest := roundHalfEven (q / f.quantum q) * f.quantum q
  if 2 ^ f.maxExponent ≤ |nearest| then .infinite (nearest < 0) else .finite nearest

def add (f : Format) : Value → Value → Value
  | .finite a, .finite b => f.round (a + b)
  | .infinite negative, .finite _ => .infinite negative
  | .finite _, .infinite negative => .infinite negative
  | .infinite a, .infinite b => if a = b then .infinite a else .nan
  | .nan, _ | _, .nan => .nan

def mul (f : Format) : Value → Value → Value
  | .finite a, .finite b => f.round (a * b)
  | .infinite negative, .finite b => if b = 0 then .nan else .infinite (negative ^^ (b < 0))
  | .finite a, .infinite negative => if a = 0 then .nan else .infinite (negative ^^ (a < 0))
  | .infinite a, .infinite b => .infinite (a ^^ b)
  | .nan, _ | _, .nan => .nan

theorem quantum_pos (f : Format) (q : ℚ) : 0 < f.quantum q := by
  unfold quantum
  positivity

theorem round_nonneg {f : Format} {q m : ℚ} (nonneg : 0 ≤ q) (finite : f.round q = .finite m) :
    0 ≤ m := by
  have below : 0 ≤ ⌊q / f.quantum q⌋ := Int.floor_nonneg.mpr (div_nonneg nonneg (f.quantum_pos q).le)
  have nearest : 0 ≤ roundHalfEven (q / f.quantum q) := by
    unfold roundHalfEven
    grind
  unfold round at finite
  simp only at finite
  split at finite
  · cases finite
  · cases finite
    exact mul_nonneg (Int.cast_nonneg nearest) (f.quantum_pos q).le

end Format

end Ieee
