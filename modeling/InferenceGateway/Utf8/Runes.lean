import Mathlib

/-! Strings as bytes and their code points. Decoding never fails: a byte that starts no
well-formed sequence is read as the replacement character, one byte wide. -/
namespace Utf8

def encode (runes : List Char) : List UInt8 := runes.flatMap String.utf8EncodeChar

/-- The replacement character. -/
def replacement : Char := '�'

/-- The well-formed sequence the bytes start with. -/
def next (bytes : List UInt8) : Option Char := bytes.toByteArray.utf8DecodeChar? 0

/-- The code points from the byte after `skip` on. -/
def runesFrom : Nat → List UInt8 → List Char
  | _, [] => []
  | skip + 1, _ :: rest => runesFrom skip rest
  | 0, b :: rest =>
      match next (b :: rest) with
      | some c => c :: runesFrom (c.utf8Size - 1) rest
      | none => replacement :: runesFrom 0 rest

def runes (bytes : List UInt8) : List Char := runesFrom 0 bytes

/-- A string that is the encoding of some code points. -/
def Valid (bytes : List UInt8) : Prop := ∃ runes, bytes = encode runes

theorem runesFrom_eq (skip : Nat) (bytes : List UInt8) :
    runesFrom skip bytes = runes (bytes.drop skip) := by
  induction bytes generalizing skip with
  | nil => simp [runes, runesFrom]
  | cons b rest ih =>
      cases skip with
      | zero => rfl
      | succ skip => exact ih skip

@[simp] theorem runes_nil : runes [] = [] := rfl

theorem runes_of_next {bytes : List UInt8} {c : Char} (h : next bytes = some c) :
    runes bytes = c :: runes (bytes.drop c.utf8Size) := by
  cases bytes with
  | nil => simp [next, ByteArray.utf8DecodeChar?] at h
  | cons b rest =>
      have size := c.utf8Size_pos
      obtain ⟨n, width⟩ : ∃ n, c.utf8Size = n + 1 := ⟨c.utf8Size - 1, by omega⟩
      rw [runes, runesFrom, h]
      simp only [runesFrom_eq, width, Nat.add_sub_cancel, List.drop_succ_cons]

theorem runes_of_not_next {b : UInt8} {rest : List UInt8} (h : next (b :: rest) = none) :
    runes (b :: rest) = replacement :: runes rest := by
  rw [runes, runesFrom, h]
  rfl

@[simp] theorem encode_nil : encode [] = [] := rfl

@[simp] theorem encode_cons (c : Char) (rest : List Char) :
    encode (c :: rest) = String.utf8EncodeChar c ++ encode rest := rfl

theorem encode_append (first second : List Char) :
    encode (first ++ second) = encode first ++ encode second := List.flatMap_append

theorem next_encode (c : Char) (rest : List UInt8) :
    next (String.utf8EncodeChar c ++ rest) = some c := by
  rw [next, List.toByteArray_append]
  exact ByteArray.utf8DecodeChar?_utf8EncodeChar_append

theorem runes_encode_append (cs : List Char) (rest : List UInt8) :
    runes (encode cs ++ rest) = cs ++ runes rest := by
  induction cs with
  | nil => rfl
  | cons c cs ih =>
      rw [encode_cons, List.append_assoc, runes_of_next (next_encode c _),
        List.drop_left' (String.length_utf8EncodeChar c), ih, List.cons_append]

/-- Decoding inverts encoding. -/
@[simp] theorem runes_encode (cs : List Char) : runes (encode cs) = cs := by
  have whole := runes_encode_append cs []
  rwa [List.append_nil, runes_nil, List.append_nil] at whole

theorem encode_injective : Function.Injective encode :=
  Function.LeftInverse.injective runes_encode

theorem Valid.encode_runes {bytes : List UInt8} (h : Valid bytes) : encode (runes bytes) = bytes := by
  obtain ⟨cs, rfl⟩ := h
  rw [runes_encode]

theorem eq_encode_append_of_next {bytes : List UInt8} {c : Char} (h : next bytes = some c) :
    bytes = String.utf8EncodeChar c ++ bytes.drop c.utf8Size := by
  obtain ⟨rest, same⟩ := ByteArray.exists_of_utf8DecodeChar?_eq_some h
  have lists := congrArg (fun array => array.data.toList) same
  simp only [List.data_toByteArray, ByteArray.toList_data_append] at lists
  rw [lists, List.drop_left' (String.length_utf8EncodeChar c)]

/-- Where no byte was replaced, encoding inverts decoding. -/
theorem encode_runes_of_intact {bytes : List UInt8} (intact : replacement ∉ runes bytes) :
    encode (runes bytes) = bytes := by
  induction length : bytes.length using Nat.strong_induction_on generalizing bytes with
  | _ n ih =>
      cases bytes with
      | nil => rfl
      | cons b rest =>
          cases read : next (b :: rest) with
          | none =>
              rw [runes_of_not_next read] at intact
              exact absurd List.mem_cons_self intact
          | some c =>
              rw [runes_of_next read] at intact ⊢
              have positive := c.utf8Size_pos
              have shorter : ((b :: rest).drop c.utf8Size).length < n := by
                rw [List.length_drop]
                rw [List.length_cons] at length ⊢
                omega
              rw [encode_cons, ih _ shorter (fun member => intact (List.mem_cons_of_mem _ member)) rfl]
              exact (eq_encode_append_of_next read).symm

theorem encode_prefix_iff {first second : List Char} :
    encode first <+: encode second ↔ first <+: second := by
  constructor
  · rintro ⟨rest, same⟩
    have read := congrArg runes same
    rw [runes_encode_append, runes_encode] at read
    exact ⟨_, read⟩
  · rintro ⟨rest, rfl⟩
    rw [encode_append]
    exact List.prefix_append _ _

/-- A byte below 128 is a character of its own. -/
theorem toNat_of_mem_encodeChar {c : Char} {b : UInt8} (member : b ∈ String.utf8EncodeChar c)
    (ascii : b.toNat < 128) : c.toNat = b.toNat := by
  have high (n : Nat) (large : 128 ≤ n % 256) (same : b = UInt8.ofNat n) : False := by
    rw [same, UInt8.toNat_ofNat'] at ascii
    omega
  change c.val.toNat = b.toNat
  simp only [String.utf8EncodeChar] at member
  split at member
  · rw [List.mem_singleton.mp member, UInt8.toNat_ofNat']
    omega
  · refine False.elim ?_
    split at member
    · simp only [List.mem_cons, List.not_mem_nil, or_false] at member
      rcases member with first | second
      · exact high _ (by omega) first
      · exact high _ (by omega) second
    · split at member
      · simp only [List.mem_cons, List.not_mem_nil, or_false] at member
        rcases member with first | second | third
        · exact high _ (by omega) first
        · exact high _ (by omega) second
        · exact high _ (by omega) third
      · simp only [List.mem_cons, List.not_mem_nil, or_false] at member
        rcases member with first | second | third | fourth
        · exact high _ (by omega) first
        · exact high _ (by omega) second
        · exact high _ (by omega) third
        · exact high _ (by omega) fourth

end Utf8
