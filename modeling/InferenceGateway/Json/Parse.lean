import InferenceGateway.Json.Text

/-! A reader for the compact texts of values. It reads back every text the encoder writes, and
leaves what follows it. -/
namespace Json

/-- The characters up to the closing quote. -/
def readString : Nat → List Char → Option (List Char × List Char)
  | 0, _ => none
  | fuel + 1, cs =>
      if cs.head? = some '"' then some ([], cs.tail)
      else do
        let (c, rest) ← unescape cs
        let (text, rest) ← readString fuel rest
        some (c :: text, rest)

def readDigits (cs : List Char) : Option (Nat × List Char) :=
  if cs.takeWhile Char.isDigit = [] then none
  else some (Nat.ofDigitChars 10 (cs.takeWhile Char.isDigit) 0, cs.dropWhile Char.isDigit)

def readInt : List Char → Option (Int × List Char)
  | '-' :: cs => (readDigits cs).map fun read => (-(read.1 : Int), read.2)
  | cs => (readDigits cs).map fun read => ((read.1 : Int), read.2)

/-- A quoted name and the colon after it. -/
def readName : List Char → Option (String × List Char)
  | '"' :: rest => do
      let (text, rest) ← readString rest.length rest
      match rest with
      | ':' :: rest => some (String.ofList text, rest)
      | _ => none
  | _ => none

mutual
def readValue : Nat → List Char → Option (Value × List Char)
  | 0, _ => none
  | _ + 1, 'n' :: 'u' :: 'l' :: 'l' :: rest => some (.null, rest)
  | _ + 1, 't' :: 'r' :: 'u' :: 'e' :: rest => some (.bool true, rest)
  | _ + 1, 'f' :: 'a' :: 'l' :: 's' :: 'e' :: rest => some (.bool false, rest)
  | _ + 1, '"' :: rest => do
      let (text, rest) ← readString rest.length rest
      some (.str (String.ofList text), rest)
  | _ + 1, '[' :: ']' :: rest => some (.arr [], rest)
  | fuel + 1, '[' :: rest => do
      let (items, rest) ← readItems fuel rest
      some (.arr items, rest)
  | _ + 1, '{' :: '}' :: rest => some (.obj [], rest)
  | fuel + 1, '{' :: rest => do
      let (members, rest) ← readMembers fuel rest
      some (.obj members, rest)
  | _ + 1, rest => do
      let (n, rest) ← readInt rest
      some (.int n, rest)

/-- One item and what follows it, up to the closing bracket. -/
def readItems : Nat → List Char → Option (List Value × List Char)
  | 0, _ => none
  | fuel + 1, cs => do
      let (item, rest) ← readValue fuel cs
      match rest with
      | ']' :: rest => some ([item], rest)
      | ',' :: rest => do
          let (items, rest) ← readItems fuel rest
          some (item :: items, rest)
      | _ => none

/-- One member and what follows it, up to the closing brace. -/
def readMembers : Nat → List Char → Option (List (String × Value) × List Char)
  | 0, _ => none
  | fuel + 1, cs => do
      let (name, rest) ← readName cs
      let (value, rest) ← readValue fuel rest
      match rest with
      | '}' :: rest => some ([(name, value)], rest)
      | ',' :: rest => do
          let (members, rest) ← readMembers fuel rest
          some ((name, value) :: members, rest)
      | _ => none
end

def parse (text : String) : Option Value :=
  match readValue (text.toList.length + 1) text.toList with
  | some (value, []) => some value
  | _ => none

/-- No digit follows. -/
def Ends (rest : List Char) : Prop := ∀ c, rest.head? = some c → c.isDigit = false

theorem length_escaped (cs : List Char) : cs.length ≤ (cs.flatMap escapeChar).length := by
  induction cs with
  | nil => simp
  | cons c cs ih =>
      obtain ⟨d, rest, head, -⟩ := escapeChar_head c
      simp only [List.flatMap_cons, List.length_append, List.length_cons, head]
      omega

theorem readString_escaped {cs rest : List Char} {fuel : Nat} (enough : cs.length < fuel) :
    readString fuel (cs.flatMap escapeChar ++ '"' :: rest) = some (cs, rest) := by
  induction cs generalizing fuel with
  | nil =>
      obtain ⟨fuel, rfl⟩ := Nat.exists_eq_add_of_lt enough
      simp [readString]
  | cons c cs ih =>
      cases fuel with
      | zero => simp at enough
      | succ fuel =>
          obtain ⟨d, more, head, unquoted⟩ := escapeChar_head c
          have first : (((c :: cs).flatMap escapeChar) ++ '"' :: rest).head? ≠ some '"' := by
            simp [head, unquoted]
          rw [readString, if_neg first, List.flatMap_cons, List.append_assoc, unescape_escapeChar]
          simp only [Option.bind_eq_bind, Option.bind_some]
          rw [ih (by simpa using enough)]
          rfl

theorem readString_quote (s : String) (rest : List Char) :
    readString (s.toList.flatMap escapeChar ++ '"' :: rest).length
      (s.toList.flatMap escapeChar ++ '"' :: rest) = some (s.toList, rest) := by
  apply readString_escaped
  have := length_escaped s.toList
  simp only [List.length_append, List.length_cons]
  omega

theorem readName_quote (name : String) (rest : List Char) :
    readName (quote name ++ ':' :: rest) = some (name, rest) := by
  have read := readString_quote name (':' :: rest)
  simp only [quote, List.cons_append, List.append_assoc, List.nil_append, readName,
    Option.bind_eq_bind, read, Option.bind_some, String.ofList_toList]

theorem readDigits_toDigits (n : Nat) {rest : List Char} (ends : Ends rest) :
    readDigits (Nat.toDigits 10 n ++ rest) = some (n, rest) := by
  have digits : ∀ c ∈ Nat.toDigits 10 n, c.isDigit = true :=
    fun c member => Nat.isDigit_of_mem_toDigits (by decide) (by decide) member
  have stop : rest.takeWhile Char.isDigit = [] ∧ rest.dropWhile Char.isDigit = rest := by
    cases rest with
    | nil => exact ⟨rfl, rfl⟩
    | cons c rest =>
        have other := ends c rfl
        simp [other]
  have taken : (Nat.toDigits 10 n ++ rest).takeWhile Char.isDigit = Nat.toDigits 10 n := by
    rw [List.takeWhile_append_of_pos digits, stop.1, List.append_nil]
  have left : (Nat.toDigits 10 n ++ rest).dropWhile Char.isDigit = rest := by
    rw [List.dropWhile_append_of_pos digits, stop.2]
  rw [readDigits, taken, left, if_neg Nat.toDigits_ne_nil, Nat.ofDigitChars_ten_toDigits]

theorem toDigits_head (n : Nat) : ∃ d ds, Nat.toDigits 10 n = d :: ds ∧ d.isDigit = true := by
  cases same : Nat.toDigits 10 n with
  | nil => exact absurd same Nat.toDigits_ne_nil
  | cons d ds =>
      exact ⟨d, ds, rfl, Nat.isDigit_of_mem_toDigits (by decide) (by decide)
        (same ▸ List.mem_cons_self : d ∈ Nat.toDigits 10 n)⟩

theorem readInt_encodeInt (n : Int) {rest : List Char} (ends : Ends rest) :
    readInt (encodeInt n ++ rest) = some (n, rest) := by
  have digits := readDigits_toDigits n.natAbs ends
  unfold encodeInt
  split
  · rename_i negative
    simp only [List.cons_append, List.nil_append, readInt, digits, Option.map_some]
    congr 2
    omega
  · rename_i nonnegative
    obtain ⟨d, ds, head, digit⟩ := toDigits_head n.natAbs
    have unsigned : d ≠ '-' := by
      rintro rfl
      cases digit
    simp only [List.nil_append]
    rw [head] at digits ⊢
    rw [List.cons_append, readInt]
    · rw [← List.cons_append, digits]
      simp only [Option.map_some]
      congr 2
      omega
    · intro cs same
      exact unsigned (List.cons.inj same).1

/-- A value starts with a character that closes nothing. -/
theorem encode_head (v : Value) : ∃ c cs, encode v = c :: cs ∧ c ≠ ']' := by
  cases v with
  | null => exact ⟨_, _, by rw [encode], by decide⟩
  | bool b => cases b <;> exact ⟨_, _, by rw [encode], by decide⟩
  | str s => exact ⟨_, _, by rw [encode, quote, List.cons_append], by decide⟩
  | arr items => cases items <;> exact ⟨'[', _, by simp only [encode, List.cons_append]; rfl, by decide⟩
  | obj members =>
      cases members <;> exact ⟨'{', _, by simp only [encode, List.cons_append]; rfl, by decide⟩
  | int n =>
      obtain ⟨d, ds, head, digit⟩ := toDigits_head n.natAbs
      rw [encode]
      unfold encodeInt
      split
      · exact ⟨_, _, rfl, by decide⟩
      · refine ⟨d, ds, head, ?_⟩
        rintro rfl
        cases digit

theorem length_encode_pos (v : Value) : 0 < (encode v).length := by
  obtain ⟨c, cs, head, -⟩ := encode_head v
  simp [head]

theorem length_encodeItems_pos (items : List Value) : 0 < (encodeItems items).length := by
  cases items <;> simp [encodeItems]

theorem length_encodeMembers_pos (members : List (String × Value)) :
    0 < (encodeMembers members).length := by
  cases members <;> simp [encodeMembers]

theorem readValue_int (n : Int) {fuel : Nat} {rest : List Char} (ends : Ends rest) :
    readValue (fuel + 1) (encodeInt n ++ rest) = some (.int n, rest) := by
  have read := readInt_encodeInt n ends
  have head : ∃ c cs, encodeInt n ++ rest = c :: cs ∧ (c = '-' ∨ c.isDigit = true) := by
    obtain ⟨d, ds, head, digit⟩ := toDigits_head n.natAbs
    unfold encodeInt
    split
    · exact ⟨_, _, rfl, .inl rfl⟩
    · exact ⟨d, ds ++ rest, by rw [head]; rfl, .inr digit⟩
  obtain ⟨c, cs, same, kind⟩ := head
  rw [same] at read ⊢
  have plain : c ≠ 'n' ∧ c ≠ 't' ∧ c ≠ 'f' ∧ c ≠ '"' ∧ c ≠ '[' ∧ c ≠ '{' := by
    rcases kind with rfl | digit
    · decide
    · refine ⟨?_, ?_, ?_, ?_, ?_, ?_⟩ <;>
      · rintro rfl
        cases digit
  rw [readValue.eq_def]
  split <;> simp_all

theorem ends_items (items : List Value) (rest : List Char) : Ends (encodeItems items ++ rest) := by
  cases items <;>
  · intro c head
    rw [encodeItems] at head
    cases head
    decide

theorem ends_members (members : List (String × Value)) (rest : List Char) :
    Ends (encodeMembers members ++ rest) := by
  cases members <;>
  · intro c head
    rw [encodeMembers] at head
    cases head
    decide

theorem readValue_items {fuel : Nat} {cs rest : List Char} {items : List Value}
    (inside : cs.head? ≠ some ']') (read : readItems fuel cs = some (items, rest)) :
    readValue (fuel + 1) ('[' :: cs) = some (.arr items, rest) := by
  rw [readValue]
  · simp [read]
  · rintro tail rfl
    exact inside rfl

theorem readValue_members {fuel : Nat} {cs rest : List Char} {members : List (String × Value)}
    (inside : cs.head? ≠ some '}') (read : readMembers fuel cs = some (members, rest)) :
    readValue (fuel + 1) ('{' :: cs) = some (.obj members, rest) := by
  rw [readValue]
  · simp [read]
  · rintro tail rfl
    exact inside rfl

mutual
theorem readValue_encode : (v : Value) → {fuel : Nat} → {rest : List Char} →
    (encode v).length < fuel → Ends rest → readValue fuel (encode v ++ rest) = some (v, rest)
  | v, 0, rest, enough, ends => absurd enough (Nat.not_lt_zero _)
  | .null, fuel + 1, rest, enough, ends => by simp [encode, readValue]
  | .bool true, fuel + 1, rest, enough, ends => by simp [encode, readValue]
  | .bool false, fuel + 1, rest, enough, ends => by simp [encode, readValue]
  | .int n, fuel + 1, rest, enough, ends => by
      rw [encode]
      exact readValue_int n ends
  | .str s, fuel + 1, rest, enough, ends => by
      have read := readString_quote s rest
      simp only [encode, quote, List.cons_append, List.append_assoc, List.nil_append, readValue,
        Option.bind_eq_bind, read, Option.bind_some, String.ofList_toList]
  | .arr [], fuel + 1, rest, enough, ends => by simp [encode, readValue]
  | .arr (item :: items), fuel + 1, rest, enough, ends => by
      simp only [encode, List.cons_append, List.length_cons, List.length_append, List.append_assoc]
        at enough ⊢
      obtain ⟨c, cs, head, inside⟩ := encode_head item
      have := length_encode_pos item
      have := length_encodeItems_pos items
      obtain ⟨fuel, rfl⟩ : ∃ f, fuel = f + 1 := ⟨fuel - 1, by omega⟩
      have fits : (encode item).length < fuel := by omega
      have first := readValue_encode item fits (ends_items items rest)
      refine readValue_items (by simpa [head] using inside) ?_
      exact readItems_encode items (by omega) first
  | .obj [], fuel + 1, rest, enough, ends => by simp [encode, readValue]
  | .obj ((name, value) :: members), fuel + 1, rest, enough, ends => by
      simp only [encode, List.cons_append, List.length_cons, List.length_append, List.append_assoc]
        at enough ⊢
      have := length_encode_pos value
      have := length_encodeMembers_pos members
      obtain ⟨fuel, rfl⟩ : ∃ f, fuel = f + 1 := ⟨fuel - 1, by omega⟩
      have fits : (encode value).length < fuel := by omega
      have first := readValue_encode value fits (ends_members members rest)
      refine readValue_members (by simp [quote]) ?_
      exact readMembers_encode members (by omega) first

/-- The items of an array, given that the first is read. -/
theorem readItems_encode : (items : List Value) → {item : Value} → {fuel : Nat} → {rest : List Char} →
    (encodeItems items).length < fuel →
    readValue fuel (encode item ++ (encodeItems items ++ rest)) =
      some (item, encodeItems items ++ rest) →
    readItems (fuel + 1) (encode item ++ (encodeItems items ++ rest)) = some (item :: items, rest)
  | [], item, fuel, rest, enough, first => by
      simp only [readItems, first, Option.bind_eq_bind, Option.bind_some]
      simp [encodeItems]
  | next :: items, item, fuel, rest, enough, first => by
      simp only [readItems, first, Option.bind_eq_bind, Option.bind_some]
      simp only [encodeItems, List.cons_append, List.length_cons, List.length_append,
        List.append_assoc] at enough ⊢
      have := length_encode_pos next
      have := length_encodeItems_pos items
      obtain ⟨fuel, rfl⟩ : ∃ f, fuel = f + 1 := ⟨fuel - 1, by omega⟩
      have fits : (encode next).length < fuel := by omega
      have second := readValue_encode next fits (ends_items items rest)
      rw [readItems_encode items (by omega) second]
      rfl

/-- The members of an object, given that the value of the first is read. -/
theorem readMembers_encode : (members : List (String × Value)) → {name : String} → {value : Value} →
    {fuel : Nat} → {rest : List Char} → (encodeMembers members).length < fuel →
    readValue fuel (encode value ++ (encodeMembers members ++ rest)) =
      some (value, encodeMembers members ++ rest) →
    readMembers (fuel + 1) (quote name ++ ':' :: (encode value ++ (encodeMembers members ++ rest))) =
      some ((name, value) :: members, rest)
  | [], name, value, fuel, rest, enough, first => by
      simp only [readMembers, readName_quote, first, Option.bind_eq_bind, Option.bind_some]
      simp [encodeMembers]
  | (other, next) :: members, name, value, fuel, rest, enough, first => by
      simp only [readMembers, readName_quote, first, Option.bind_eq_bind, Option.bind_some]
      simp only [encodeMembers, List.cons_append, List.length_cons, List.length_append,
        List.append_assoc] at enough ⊢
      have := length_encode_pos next
      have := length_encodeMembers_pos members
      obtain ⟨fuel, rfl⟩ : ∃ f, fuel = f + 1 := ⟨fuel - 1, by omega⟩
      have fits : (encode next).length < fuel := by omega
      have second := readValue_encode next fits (ends_members members rest)
      rw [readMembers_encode members (by omega) second]
      rfl
end

/-- What is written is read back. -/
theorem parse_text (v : Value) : parse v.text = some v := by
  have ends : Ends [] := nofun
  have read := readValue_encode v (Nat.lt_succ_self _) ends
  rw [List.append_nil] at read
  simp [parse, Value.text, read]

/-- A field of a record: absent and null leave it as it was. -/
def Value.field {α : Type} (v : Value) (name : String) (absent : α) (read : Value → Option α) :
    Option α :=
  match v.member name with
  | none | some .null => some absent
  | some value => read value

section Field
variable {α : Type} {absent : α} {read : Value → Option α} {name other : String} {value : Value}
  {members : List (String × Value)}

@[simp] theorem Value.field_self (present : value ≠ .null) :
    (Value.obj ((name, value) :: members)).field name absent read = read value := by
  have found : (Value.obj ((name, value) :: members)).member name = some value := by
    simp [Value.member]
  cases value with
  | null => exact absurd rfl present
  | _ => rw [field, found]

@[simp] theorem Value.field_null :
    (Value.obj ((name, .null) :: members)).field name absent read = some absent := by
  unfold field
  simp [Value.member]

@[simp] theorem Value.field_of_ne (different : name ≠ other) :
    (Value.obj ((other, value) :: members)).field name absent read =
      (Value.obj members).field name absent read := by
  unfold field
  have unequal : (name == other) = false := beq_eq_false_iff_ne.mpr different
  simp only [Value.member, List.lookup_cons, unequal]

end Field

def Value.integer : Value → Option Int
  | .int n => some n
  | _ => none

/-- An integer that fits the machine type. -/
def Value.int64 (v : Value) : Option Int64 := do
  let n ← v.integer
  if -2 ^ 63 ≤ n ∧ n < 2 ^ 63 then some (Int64.ofInt n) else none

@[simp] theorem Value.int64_toInt (n : Int64) : Value.int64 (.int n.toInt) = some n := by
  have inside : -2 ^ 63 ≤ n.toInt ∧ n.toInt < 2 ^ 63 := ⟨n.le_toInt, n.toInt_lt⟩
  show (if -2 ^ 63 ≤ n.toInt ∧ n.toInt < 2 ^ 63 then some (Int64.ofInt n.toInt) else none) = some n
  rw [if_pos inside, Int64.ofInt_toInt]

def Value.boolean : Value → Option Bool
  | .bool b => some b
  | _ => none

/-- Every item read. -/
def Value.list {α : Type} (read : Value → Option α) : Value → Option (List α)
  | .arr items => items.mapM read
  | _ => none

theorem Value.list_map {α : Type} (read : Value → Option α) (write : α → Value)
    (back : ∀ a, read (write a) = some a) (as : List α) :
    Value.list read (.arr (as.map write)) = some as := by
  show (as.map write).mapM read = some as
  induction as with
  | nil => rfl
  | cons a as ih =>
      rw [List.map_cons, List.mapM_cons, back, ih]
      rfl

end Json
