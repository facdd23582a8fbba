import Mathlib

/-! Glob patterns over bytes, as key stores match them: a star for any bytes, a question mark for
one, sets with ranges and negation in brackets, and a backslash before a byte meant as itself.
A set that is never closed ends with the pattern. -/
namespace Glob

def star : UInt8 := 42
def question : UInt8 := 63
def opening : UInt8 := 91
def closing : UInt8 := 93
def caret : UInt8 := 94
def dash : UInt8 := 45
def backslash : UInt8 := 92

/-- A range may be given from either end. -/
def inRange (first last c : UInt8) : Bool :=
  (first ≤ c && c ≤ last) || (last ≤ c && c ≤ first)

/-- Whether a set has the byte, and the pattern after the set. -/
def inSet (c : UInt8) : List UInt8 → Bool → Bool × List UInt8
  | [], hit => (hit, [])
  | [a], hit => if a = closing then (hit, []) else (hit || a == c, [])
  | a :: b :: p, hit =>
      if a = backslash then inSet c p (hit || b == c)
      else if a = closing then (hit, b :: p)
      else if b = dash then
        match p with
        | [] => (hit || a == c || b == c, [])
        | last :: rest => inSet c rest (hit || inRange a last c)
      else inSet c (b :: p) (hit || a == c)
termination_by p _ => p.length

theorem inSet_length_le (c : UInt8) (p : List UInt8) (hit : Bool) :
    (inSet c p hit).2.length ≤ p.length := by
  fun_induction inSet c p hit <;> simp_all <;> omega

/-- The set after an opening bracket, negated by a leading caret. -/
def bracket (c : UInt8) (p : List UInt8) : Bool × List UInt8 :=
  match p with
  | [] => inSet c [] false
  | a :: rest =>
      if a = caret then
        let found := inSet c rest false
        (!found.1, found.2)
      else inSet c (a :: rest) false

theorem bracket_length_le (c : UInt8) (p : List UInt8) : (bracket c p).2.length ≤ p.length := by
  unfold bracket
  split
  · exact inSet_length_le c [] false
  · rename_i a rest
    split
    · exact (inSet_length_le c rest false).trans (Nat.le_succ _)
    · exact inSet_length_le c (a :: rest) false

/-- Whether the pattern accepts all of the bytes. -/
def accepts : List UInt8 → List UInt8 → Bool
  | p, [] => p.all (· == star)
  | [], _ :: _ => false
  | a :: p, c :: s =>
      if a = star then accepts p (c :: s) || accepts (a :: p) s
      else if a = question then accepts p s
      else if a = opening then (bracket c p).1 && accepts (bracket c p).2 s
      else if a = backslash then
        match p with
        | [] => a == c && accepts [] s
        | b :: rest => b == c && accepts rest s
      else a == c && accepts p s
termination_by p s => p.length + s.length
decreasing_by
  all_goals simp_wf
  all_goals first | omega | skip
  all_goals
    have := bracket_length_le c p
    omega

/-- A byte that stands for itself outside a set. -/
def IsPlain (b : UInt8) : Prop := b ≠ star ∧ b ≠ question ∧ b ≠ opening ∧ b ≠ backslash

variable {a c : UInt8} {p q s : List UInt8}

theorem accepts_star (s : List UInt8) : accepts [star] s = true := by
  induction s with
  | nil => simp [accepts]
  | cons c s ih => simp [accepts, ih]

theorem accepts_plain_nil (plain : IsPlain a) : accepts (a :: p) [] = false := by
  simp [accepts, plain.1]

theorem accepts_plain_cons (plain : IsPlain a) :
    accepts (a :: p) (c :: s) = (a == c && accepts p s) := by
  rw [accepts.eq_def]
  simp only [if_neg plain.1, if_neg plain.2.1, if_neg plain.2.2.1, if_neg plain.2.2.2]

/-- A stem of plain bytes is accepted as it stands. -/
theorem accepts_plain_append (plain : ∀ b ∈ q, IsPlain b) :
    accepts (q ++ p) s = true ↔ ∃ rest, s = q ++ rest ∧ accepts p rest = true := by
  induction q generalizing s with
  | nil => simp
  | cons b q ih =>
      have first := plain b List.mem_cons_self
      have later : ∀ b ∈ q, IsPlain b := fun b member => plain b (List.mem_cons_of_mem _ member)
      cases s with
      | nil => simp [accepts_plain_nil first]
      | cons c s =>
          rw [List.cons_append, accepts_plain_cons first, Bool.and_eq_true, beq_iff_eq, ih later]
          simp only [List.cons_append, List.cons.injEq]
          constructor
          · rintro ⟨rfl, rest, rfl, accepted⟩
            exact ⟨rest, ⟨rfl, rfl⟩, accepted⟩
          · rintro ⟨rest, ⟨rfl, rfl⟩, accepted⟩
            exact ⟨rfl, rest, rfl, accepted⟩

/-- A plain stem and a final star accept what starts with the stem. -/
theorem accepts_stem (plain : ∀ b ∈ q, IsPlain b) : accepts (q ++ [star]) s = true ↔ q <+: s := by
  rw [accepts_plain_append plain]
  constructor
  · rintro ⟨rest, rfl, -⟩
    exact List.prefix_append q rest
  · rintro ⟨rest, rfl⟩
    exact ⟨rest, rfl, accepts_star rest⟩

end Glob
