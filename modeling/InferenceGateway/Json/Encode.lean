import Mathlib

/-! JSON values and their compact text. Strings are escaped the way HTML-safe encoders
do it, so the text of a value is always a single line. -/
namespace Json

inductive Value where
  | null
  | bool (b : Bool)
  | int (n : Int)
  | str (s : String)
  | arr (items : List Value)
  | obj (members : List (String × Value))

/-- The six-character escape of a code point below 65536. -/
def unicodeEscape (n : Nat) : List Char :=
  ['\\', 'u', (n / 4096 % 16).digitChar, (n / 256 % 16).digitChar, (n / 16 % 16).digitChar,
    (n % 16).digitChar]

/-- The letter after the backslash, for characters that have a two-character escape. -/
def shortEscape : Char → Option Char
  | '"' => some '"'
  | '\\' => some '\\'
  | '\x08' => some 'b'
  | '\t' => some 't'
  | '\n' => some 'n'
  | '\x0c' => some 'f'
  | '\r' => some 'r'
  | _ => none

def escapeChar (c : Char) : List Char :=
  match shortEscape c with
  | some letter => ['\\', letter]
  | none =>
      if c.toNat < 32 ∨ c ∈ ['<', '>', '&', '\u2028', '\u2029'] then unicodeEscape c.toNat
      else [c]

def quote (s : String) : List Char := '"' :: s.toList.flatMap escapeChar ++ ['"']

def encodeInt (n : Int) : List Char :=
  (if n < 0 then ['-'] else []) ++ Nat.toDigits 10 n.natAbs

mutual
def encode : Value → List Char
  | .null => ['n', 'u', 'l', 'l']
  | .bool true => ['t', 'r', 'u', 'e']
  | .bool false => ['f', 'a', 'l', 's', 'e']
  | .int n => encodeInt n
  | .str s => quote s
  | .arr [] => ['[', ']']
  | .arr (item :: items) => '[' :: encode item ++ encodeItems items
  | .obj [] => ['{', '}']
  | .obj ((name, value) :: members) =>
      '{' :: quote name ++ ':' :: encode value ++ encodeMembers members

def encodeItems : List Value → List Char
  | [] => [']']
  | item :: items => ',' :: encode item ++ encodeItems items

def encodeMembers : List (String × Value) → List Char
  | [] => ['}']
  | (name, value) :: members => ',' :: quote name ++ ':' :: encode value ++ encodeMembers members
end

def Value.text (v : Value) : String := String.ofList (encode v)

def Visible (text : List Char) : Prop := ∀ c ∈ text, 32 ≤ c.toNat

theorem Visible.append {s t : List Char} (first : Visible s) (second : Visible t) :
    Visible (s ++ t) := by
  intro c member
  rcases List.mem_append.mp member with early | late
  · exact first c early
  · exact second c late

theorem Visible.cons {c : Char} {t : List Char} (first : 32 ≤ c.toNat) (rest : Visible t) :
    Visible (c :: t) := by
  intro d member
  rcases List.mem_cons.mp member with rfl | later
  · exact first
  · exact rest d later

theorem digitChar_visible (n : Nat) (h : n < 16) : 32 ≤ n.digitChar.toNat := by
  revert n
  decide

theorem unicodeEscape_visible (n : Nat) : Visible (unicodeEscape n) := by
  have digit : ∀ m : Nat, 32 ≤ (m % 16).digitChar.toNat := fun m =>
    digitChar_visible _ (Nat.mod_lt m (by decide))
  intro c member
  simp only [unicodeEscape, List.mem_cons, List.not_mem_nil, or_false] at member
  rcases member with rfl | rfl | rfl | rfl | rfl | rfl
  · decide
  · decide
  all_goals exact digit _

theorem shortEscape_visible {c letter : Char} (h : shortEscape c = some letter) :
    32 ≤ letter.toNat := by
  unfold shortEscape at h
  split at h <;> cases h <;> decide

theorem escapeChar_visible (c : Char) : Visible (escapeChar c) := by
  unfold escapeChar
  split
  · rename_i letter h
    exact .cons (by decide) (.cons (shortEscape_visible h) nofun)
  · split
    · exact unicodeEscape_visible c.toNat
    · rename_i plain
      exact .cons (by omega) nofun

theorem quote_visible (s : String) : Visible (quote s) := by
  apply Visible.append
  · refine .cons (by decide) ?_
    intro c member
    obtain ⟨d, -, escaped⟩ := List.mem_flatMap.mp member
    exact escapeChar_visible d c escaped
  · exact .cons (by decide) nofun

theorem encodeInt_visible (n : Int) : Visible (encodeInt n) := by
  apply Visible.append
  · split
    · exact .cons (by decide) nofun
    · nofun
  · intro c member
    have digit := Nat.isDigit_of_mem_toDigits (by decide) (by decide) member
    simp only [Char.isDigit, Bool.and_eq_true, decide_eq_true_eq] at digit
    exact (by decide : 32 ≤ '0'.toNat).trans digit.1

mutual
theorem encode_visible : (v : Value) → Visible (encode v)
  | .null | .bool true | .bool false => by simp [encode, Visible]
  | .int n => by
      rw [encode]
      exact encodeInt_visible n
  | .str s => by
      rw [encode]
      exact quote_visible s
  | .arr [] | .obj [] => by simp [encode, Visible]
  | .arr (item :: items) => by
      rw [encode]
      exact .append (.cons (by decide) (encode_visible item)) (encodeItems_visible items)
  | .obj ((name, value) :: members) => by
      rw [encode]
      exact .append (.append (.cons (by decide) (quote_visible name))
        (.cons (by decide) (encode_visible value))) (encodeMembers_visible members)

theorem encodeItems_visible : (items : List Value) → Visible (encodeItems items)
  | [] => by simp [encodeItems, Visible]
  | item :: items => by
      rw [encodeItems]
      exact .append (.cons (by decide) (encode_visible item)) (encodeItems_visible items)

theorem encodeMembers_visible : (members : List (String × Value)) → Visible (encodeMembers members)
  | [] => by simp [encodeMembers, Visible]
  | (name, value) :: members => by
      rw [encodeMembers]
      exact .append (.append (.cons (by decide) (quote_visible name))
        (.cons (by decide) (encode_visible value))) (encodeMembers_visible members)
end

theorem encodeMembers_ends (members : List (String × Value)) :
    ∃ init, encodeMembers members = init ++ ['}'] := by
  induction members with
  | nil => exact ⟨[], by rw [encodeMembers]; rfl⟩
  | cons member members ih =>
      obtain ⟨init, same⟩ := ih
      rcases member with ⟨name, value⟩
      rw [encodeMembers, same, ← List.append_assoc]
      exact ⟨_, rfl⟩

/-- The text of an object is enclosed in braces. -/
theorem encode_obj (members : List (String × Value)) :
    ∃ inner, encode (.obj members) = '{' :: inner ++ ['}'] := by
  rcases members with - | ⟨⟨name, value⟩, members⟩
  · exact ⟨[], by rw [encode]; rfl⟩
  · obtain ⟨init, same⟩ := encodeMembers_ends members
    rw [encode, same]
    exact ⟨quote name ++ ':' :: encode value ++ init, by simp⟩

theorem Value.text_obj (members : List (String × Value)) :
    ∃ inner, (Value.text (.obj members)).toList = '{' :: inner ++ ['}'] := by
  obtain ⟨inner, braces⟩ := encode_obj members
  exact ⟨inner, by rw [Value.text, String.toList_ofList, braces]⟩

/-- The text of a value holds no line break. -/
theorem Value.text_single_line (v : Value) : '\n' ∉ v.text.toList := by
  intro member
  rw [Value.text, String.toList_ofList] at member
  exact absurd (encode_visible v _ member) (by decide)

end Json
