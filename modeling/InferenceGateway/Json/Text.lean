import InferenceGateway.Json.Encode
import InferenceGateway.Json.Document

/-! The compact text of a document whose numbers are given as texts, and that it determines
the document. A number's text ends at the first character no number has. -/
namespace Json

def isNumberChar (c : Char) : Bool := c.isDigit || c ∈ ['+', '-', '.', 'e', 'E']

/-- What may stand as a number in a text. -/
def NumberText (text : List Char) : Prop := text ≠ [] ∧ ∀ c ∈ text, isNumberChar c = true

theorem toDigits_numberText (n : Nat) : NumberText (Nat.toDigits 10 n) := by
  refine ⟨Nat.toDigits_ne_nil, fun c member => ?_⟩
  have digit := Nat.isDigit_of_mem_toDigits (by decide) (by decide) member
  simp [isNumberChar, digit]

theorem encodeInt_numberText (n : Int) : NumberText (encodeInt n) := by
  obtain ⟨nonempty, digits⟩ := toDigits_numberText n.natAbs
  refine ⟨by simp [encodeInt, nonempty], fun c member => ?_⟩
  rcases List.mem_append.mp member with sign | digit
  · split at sign
    · cases List.mem_singleton.mp sign
      decide
    · cases sign
  · exact digits c digit

theorem toDigits_injective : Function.Injective (Nat.toDigits 10) := by
  intro n m same
  rw [← Nat.ofDigitChars_ten_toDigits (n := n), same, Nat.ofDigitChars_ten_toDigits]

theorem encodeInt_injective : Function.Injective encodeInt := by
  have unsigned (a : Nat) (b : List Char) : Nat.toDigits 10 a ≠ '-' :: b := by
    intro same
    have digit : '-'.isDigit = true :=
      Nat.isDigit_of_mem_toDigits (by decide) (by decide) (same ▸ List.mem_cons_self)
    cases digit
  intro n m same
  unfold encodeInt at same
  split_ifs at same with negative negative'
  · have digits := toDigits_injective (List.cons.inj same).2
    omega
  · exact absurd same.symm (unsigned _ _)
  · exact absurd same (unsigned _ _)
  · have digits := toDigits_injective same
    omega

namespace Syn

/-- Items and members are written with a comma before each; the brackets drop the first. -/
def chars : {k : Kind} → Syn (List Char) k → List Char
  | _, .null => ['n', 'u', 'l', 'l']
  | _, .bool true => ['t', 'r', 'u', 'e']
  | _, .bool false => ['f', 'a', 'l', 's', 'e']
  | _, .num text => text
  | _, .str s => quote s
  | _, .arr items => '[' :: items.chars.tail ++ [']']
  | _, .obj members => '{' :: members.chars.tail ++ ['}']
  | _, .noItems => []
  | _, .item head rest => ',' :: head.chars ++ rest.chars
  | _, .noMembers => []
  | _, .member name value rest => ',' :: quote name ++ ':' :: value.chars ++ rest.chars

def text (t : Document (List Char)) : String := String.ofList t.chars

end Syn

/-- Reads back one escaped character. -/
def unescape : List Char → Option (Char × List Char)
  | '\\' :: 'u' :: a :: b :: c :: d :: rest =>
      some (Char.ofNat (((hex a * 16 + hex b) * 16 + hex c) * 16 + hex d), rest)
  | '\\' :: letter :: rest => (longEscape letter).map (·, rest)
  | c :: rest => some (c, rest)
  | [] => none
where
  hex (c : Char) : Nat := if c.isDigit then c.toNat - 48 else c.toNat - 87
  longEscape : Char → Option Char
    | '"' => some '"'
    | '\\' => some '\\'
    | 'b' => some '\x08'
    | 't' => some '\t'
    | 'n' => some '\n'
    | 'f' => some '\x0c'
    | 'r' => some '\r'
    | _ => none

theorem hex_digitChar (n : Nat) : unescape.hex (n % 16).digitChar = n % 16 := by
  have all : ∀ m < 16, unescape.hex m.digitChar = m := by decide
  exact all _ (Nat.mod_lt n (by decide))

theorem unescape_unicodeEscape {c : Char} (small : c.toNat < 65536) (rest : List Char) :
    unescape (unicodeEscape c.toNat ++ rest) = some (c, rest) := by
  simp only [unicodeEscape, List.cons_append, List.nil_append, unescape, hex_digitChar]
  have digits : ((c.toNat / 4096 % 16 * 16 + c.toNat / 256 % 16) * 16 + c.toNat / 16 % 16) * 16 +
      c.toNat % 16 = c.toNat := by omega
  rw [digits, Char.ofNat_toNat]

theorem unescape_escapeChar (c : Char) (rest : List Char) :
    unescape (escapeChar c ++ rest) = some (c, rest) := by
  unfold escapeChar
  split
  · rename_i letter short
    unfold shortEscape at short
    split at short <;> cases short <;> rfl
  · rename_i long
    split
    · rename_i special
      refine unescape_unicodeEscape ?_ rest
      rcases special with small | member
      · omega
      · simp only [List.mem_cons, List.not_mem_nil, or_false] at member
        rcases member with rfl | rfl | rfl | rfl | rfl <;> decide
    · have plain : c ≠ '\\' := by
        rintro rfl
        simp [shortEscape] at long
      simp only [List.cons_append, List.nil_append]
      unfold unescape
      split <;> simp_all

theorem escapeChar_head (c : Char) : ∃ d rest, escapeChar c = d :: rest ∧ d ≠ '"' := by
  unfold escapeChar
  split
  · exact ⟨_, _, rfl, by decide⟩
  · rename_i long
    split
    · exact ⟨_, _, rfl, by decide⟩
    · refine ⟨c, [], rfl, ?_⟩
      rintro rfl
      simp [shortEscape] at long

theorem escaped_inj {cs ds x y : List Char}
    (same : cs.flatMap escapeChar ++ '"' :: x = ds.flatMap escapeChar ++ '"' :: y) :
    cs = ds ∧ x = y := by
  induction cs generalizing ds with
  | nil =>
      cases ds with
      | nil => exact ⟨rfl, List.tail_eq_of_cons_eq same⟩
      | cons d ds =>
          obtain ⟨first, rest, head, apart⟩ := escapeChar_head d
          simp only [List.flatMap_nil, List.flatMap_cons, head, List.nil_append, List.cons_append,
            List.cons.injEq] at same
          exact absurd same.1.symm apart
  | cons c cs ih =>
      cases ds with
      | nil =>
          obtain ⟨first, rest, head, apart⟩ := escapeChar_head c
          simp only [List.flatMap_nil, List.flatMap_cons, head, List.nil_append, List.cons_append,
            List.cons.injEq] at same
          exact absurd same.1 apart
      | cons d ds =>
          simp only [List.flatMap_cons, List.append_assoc] at same
          have read := congrArg unescape same
          rw [unescape_escapeChar, unescape_escapeChar, Option.some.injEq, Prod.mk.injEq] at read
          obtain ⟨rest, tail⟩ := ih read.2
          exact ⟨by rw [read.1, rest], tail⟩

theorem quote_inj {s t : String} {x y : List Char} (same : quote s ++ x = quote t ++ y) :
    s = t ∧ x = y := by
  simp only [quote, List.cons_append, List.append_assoc, List.nil_append, List.cons.injEq,
    true_and] at same
  obtain ⟨letters, rest⟩ := escaped_inj same
  exact ⟨String.toList_inj.mp letters, rest⟩

namespace Syn

/-- Every number is written with characters of numbers. -/
def Plain (t : Syn (List Char) k) : Prop := ∀ text ∈ t.numbers, NumberText text

theorem Plain.member {name : String} {v : Document (List Char)} {rest : Syn (List Char) .members}
    (value : v.Plain) (later : rest.Plain) : (Syn.member name v rest).Plain :=
  List.forall_mem_append.mpr ⟨value, later⟩

theorem Plain.optional {name : String} {v : Option (Document (List Char))}
    {rest : Syn (List Char) .members} (value : ∀ d ∈ v, d.Plain) (later : rest.Plain) :
    (Syn.optional name v rest).Plain := by
  cases v with
  | none => exact later
  | some d => exact (value d rfl).member later

theorem Plain.ofList {vs : List (Document (List Char))} (each : ∀ v ∈ vs, v.Plain) :
    (Syn.ofList vs).Plain := by
  induction vs with
  | nil => nofun
  | cons v vs ih =>
      rw [List.forall_mem_cons] at each
      exact List.forall_mem_append.mpr ⟨each.1, ih each.2⟩

/-- What the first character of a value says about it. -/
def tag : {k : Kind} → Syn (List Char) k → Nat
  | _, .null => 0
  | _, .bool true => 1
  | _, .bool false => 2
  | _, .num _ => 3
  | _, .str _ => 4
  | _, .arr _ => 5
  | _, .obj _ => 6
  | _, _ => 7

def classify (c : Char) : Nat :=
  if isNumberChar c then 3
  else
    match c with
    | 'n' => 0
    | 't' => 1
    | 'f' => 2
    | '"' => 4
    | '[' => 5
    | '{' => 6
    | _ => 7

theorem chars_head {t : Document (List Char)} (plain : t.Plain) :
    ∃ c rest, t.chars = c :: rest ∧ classify c = t.tag ∧ t.tag < 7 := by
  cases t with
  | null => exact ⟨_, _, rfl, by decide, by decide⟩
  | bool b => cases b <;> exact ⟨_, _, rfl, by decide, by decide⟩
  | num text =>
      obtain ⟨nonempty, chars⟩ := plain text List.mem_cons_self
      obtain ⟨c, rest, rfl⟩ := List.exists_cons_of_ne_nil nonempty
      exact ⟨c, rest, rfl, by simp [classify, chars c, tag], by simp [tag]⟩
  | str s => exact ⟨_, _, rfl, by rfl, by simp [tag]⟩
  | arr items => exact ⟨_, _, rfl, by rfl, by simp [tag]⟩
  | obj members => exact ⟨_, _, rfl, by rfl, by simp [tag]⟩

/-- What may follow a document: nothing that would read on. -/
def Stops : Kind → List Char → Prop
  | _, [] => True
  | .value, c :: _ => isNumberChar c = false
  | .items, c :: _ | .members, c :: _ => isNumberChar c = false ∧ c ≠ ','

theorem numberText_inj {a b x y : List Char} (first : NumberText a) (second : NumberText b)
    (stop : Stops .value x) (stop' : Stops .value y) (same : a ++ x = b ++ y) :
    a = b ∧ x = y := by
  have read {a x : List Char} (text : NumberText a) (stop : Stops .value x) :
      (a ++ x).takeWhile isNumberChar = a := by
    rw [List.takeWhile_append_of_pos text.2]
    cases x with
    | nil => simp
    | cons c x => simp [show isNumberChar c = false from stop]
  have texts := congrArg (List.takeWhile isNumberChar) same
  rw [read first stop, read second stop'] at texts
  subst texts
  exact ⟨rfl, List.append_cancel_left same⟩

/-- The text of items or members after a bracket, told from the closing bracket. -/
theorem tail_inj {t u : Syn (List Char) k} {close : Char} {x y : List Char}
    (heads : ∀ s ∈ [t, u], s.chars = [] ∨ ∃ c rest, s.chars = ',' :: c :: rest ∧ c ≠ close)
    (same : t.chars.tail ++ close :: x = u.chars.tail ++ close :: y) :
    t.chars ++ close :: x = u.chars ++ close :: y := by
  rcases heads t (by simp) with none | ⟨c, rest, head, apart⟩
  · rcases heads u (by simp) with none' | ⟨c', rest', head', apart'⟩
    · simpa [none, none'] using same
    · simp only [none, head', List.tail_nil, List.tail_cons, List.nil_append, List.cons_append,
        List.cons.injEq] at same
      exact absurd same.1.symm apart'
  · rcases heads u (by simp) with none' | ⟨c', rest', head', apart'⟩
    · simp only [none', head, List.tail_nil, List.tail_cons, List.nil_append, List.cons_append,
        List.cons.injEq] at same
      exact absurd same.1 apart
    · simp only [head, head', List.tail_cons] at same ⊢
      exact congrArg (',' :: ·) same

theorem tag_eq {t u : Document (List Char)} {x y : List Char} (plain : t.Plain) (plain' : u.Plain)
    (same : t.chars ++ x = u.chars ++ y) : t.tag = u.tag := by
  obtain ⟨c, rest, head, class_t, -⟩ := chars_head plain
  obtain ⟨d, rest', head', class_u, -⟩ := chars_head plain'
  rw [head, head'] at same
  rw [← class_t, ← class_u, (List.cons.inj same).1]

theorem Plain.of_item {head : Document (List Char)} {rest : Syn (List Char) .items}
    (h : (Syn.item head rest).Plain) : head.Plain ∧ rest.Plain :=
  ⟨fun text listed => h text (List.mem_append_left _ listed),
    fun text listed => h text (List.mem_append_right _ listed)⟩

theorem Plain.of_member {name : String} {value : Document (List Char)} {rest : Syn (List Char) .members}
    (h : (Syn.member name value rest).Plain) : value.Plain ∧ rest.Plain :=
  ⟨fun text listed => h text (List.mem_append_left _ listed),
    fun text listed => h text (List.mem_append_right _ listed)⟩

theorem items_head {t : Syn (List Char) .items} (plain : t.Plain) :
    t.chars = [] ∨ ∃ c rest, t.chars = ',' :: c :: rest ∧ c ≠ ']' := by
  cases t with
  | noItems => exact .inl rfl
  | item head rest =>
      obtain ⟨c, tail, first, classified, bound⟩ := chars_head plain.of_item.1
      refine .inr ⟨c, tail ++ rest.chars, by simp [chars, first], ?_⟩
      rintro rfl
      rw [← classified] at bound
      revert bound
      decide

theorem members_head (t : Syn (List Char) .members) :
    t.chars = [] ∨ ∃ c rest, t.chars = ',' :: c :: rest ∧ c ≠ '}' := by
  cases t with
  | noMembers => exact .inl rfl
  | member name value rest => exact .inr ⟨'"', _, rfl, by decide⟩

theorem stops_bracket (x : List Char) : Stops .items (']' :: x) := ⟨by decide, by decide⟩

theorem stops_brace (x : List Char) : Stops .members ('}' :: x) := ⟨by decide, by decide⟩

theorem stops_items {rest : Syn (List Char) .items} {x : List Char} (stop : Stops .items x) :
    Stops .value (rest.chars ++ x) := by
  cases rest with
  | noItems =>
      cases x with
      | nil => trivial
      | cons c x => exact stop.1
  | item head rest => exact (by decide : isNumberChar ',' = false)

theorem stops_members {rest : Syn (List Char) .members} {x : List Char} (stop : Stops .members x) :
    Stops .value (rest.chars ++ x) := by
  cases rest with
  | noMembers =>
      cases x with
      | nil => trivial
      | cons c x => exact stop.1
  | member name value rest => exact (by decide : isNumberChar ',' = false)

/-- The text determines the document, whatever may follow it. -/
theorem chars_inj {t u : Syn (List Char) k} {x y : List Char} (plain : t.Plain) (plain' : u.Plain)
    (stop : Stops k x) (stop' : Stops k y) (same : t.chars ++ x = u.chars ++ y) :
    t = u ∧ x = y := by
  induction t generalizing x y with
  | null =>
      have tags := tag_eq plain plain' same
      cases u with
      | null => exact ⟨rfl, List.append_cancel_left same⟩
      | bool b => cases b <;> cases tags
      | _ => cases tags
  | bool b =>
      have tags := tag_eq plain plain' same
      cases u with
      | bool b' =>
          cases b <;> cases b' <;>
            first | exact ⟨rfl, List.append_cancel_left same⟩ | cases tags
      | _ => cases b <;> cases tags
  | num text =>
      have tags := tag_eq plain plain' same
      cases u with
      | num text' =>
          obtain ⟨rfl, rest⟩ := numberText_inj (plain text List.mem_cons_self)
            (plain' text' List.mem_cons_self) stop stop' same
          exact ⟨rfl, rest⟩
      | bool b => cases b <;> cases tags
      | _ => cases tags
  | str s =>
      have tags := tag_eq plain plain' same
      cases u with
      | str s' =>
          obtain ⟨rfl, rest⟩ := quote_inj same
          exact ⟨rfl, rest⟩
      | bool b => cases b <;> cases tags
      | _ => cases tags
  | arr items ih =>
      have tags := tag_eq plain plain' same
      cases u with
      | arr items' =>
          simp only [chars, List.cons_append, List.append_assoc, List.nil_append, List.cons.injEq,
            true_and] at same
          have heads : ∀ s ∈ [items, items'],
              s.chars = [] ∨ ∃ c rest, s.chars = ',' :: c :: rest ∧ c ≠ ']' := by
            simp only [List.forall_mem_cons]
            exact ⟨items_head plain, items_head plain', nofun⟩
          obtain ⟨rfl, rest⟩ := ih plain plain' (stops_bracket x) (stops_bracket y)
            (tail_inj heads same)
          exact ⟨rfl, (List.cons.inj rest).2⟩
      | bool b => cases b <;> cases tags
      | _ => cases tags
  | obj members ih =>
      have tags := tag_eq plain plain' same
      cases u with
      | obj members' =>
          simp only [chars, List.cons_append, List.append_assoc, List.nil_append, List.cons.injEq,
            true_and] at same
          have heads : ∀ s ∈ [members, members'],
              s.chars = [] ∨ ∃ c rest, s.chars = ',' :: c :: rest ∧ c ≠ '}' := by
            simp only [List.forall_mem_cons]
            exact ⟨members_head members, members_head members', nofun⟩
          obtain ⟨rfl, rest⟩ := ih plain plain' (stops_brace x) (stops_brace y)
            (tail_inj heads same)
          exact ⟨rfl, (List.cons.inj rest).2⟩
      | bool b => cases b <;> cases tags
      | _ => cases tags
  | noItems =>
      cases u with
      | noItems => exact ⟨rfl, same⟩
      | item head rest =>
          simp only [chars, List.nil_append, List.cons_append] at same
          rw [same] at stop
          exact absurd rfl stop.2
  | item head rest ihHead ihRest =>
      cases u with
      | noItems =>
          simp only [chars, List.nil_append, List.cons_append] at same
          rw [← same] at stop'
          exact absurd rfl stop'.2
      | item head' rest' =>
          simp only [chars, List.cons_append, List.append_assoc, List.cons.injEq, true_and] at same
          obtain ⟨rfl, later⟩ :=
            ihHead plain.of_item.1 plain'.of_item.1 (stops_items stop) (stops_items stop') same
          obtain ⟨rfl, after⟩ := ihRest plain.of_item.2 plain'.of_item.2 stop stop' later
          exact ⟨rfl, after⟩
  | noMembers =>
      cases u with
      | noMembers => exact ⟨rfl, same⟩
      | member name value rest =>
          simp only [chars, List.nil_append, List.cons_append] at same
          rw [same] at stop
          exact absurd rfl stop.2
  | member name value rest ihValue ihRest =>
      cases u with
      | noMembers =>
          simp only [chars, List.nil_append, List.cons_append] at same
          rw [← same] at stop'
          exact absurd rfl stop'.2
      | member name' value' rest' =>
          simp only [chars, List.cons_append, List.append_assoc, List.cons.injEq, true_and] at same
          obtain ⟨rfl, valued⟩ := quote_inj same
          obtain ⟨rfl, later⟩ := ihValue plain.of_member.1 plain'.of_member.1 (stops_members stop)
            (stops_members stop') (List.cons.inj valued).2
          obtain ⟨rfl, after⟩ := ihRest plain.of_member.2 plain'.of_member.2 stop stop' later
          exact ⟨rfl, after⟩

theorem text_inj {t u : Document (List Char)} (plain : t.Plain) (plain' : u.Plain)
    (same : t.text = u.text) : t = u := by
  have letters : t.chars ++ [] = u.chars ++ [] := by
    simpa only [List.append_nil] using String.ofList_injective same
  exact (chars_inj (x := []) (y := []) plain plain' trivial trivial letters).1

theorem text_ne_empty {t : Document (List Char)} (plain : t.Plain) : t.text ≠ "" := by
  intro empty
  have none : t.chars = [] := String.ofList_injective empty
  cases t with
  | null => cases none
  | bool b => cases b <;> cases none
  | num text => exact (plain text (List.mem_singleton_self text)).1 none
  | str s => cases none
  | arr items => cases none
  | obj members => cases none

end Syn

namespace Value

mutual
/-- The document of a value, its numbers as the encoder writes them. -/
def document : Value → Document (List Char)
  | .null => .null
  | .bool b => .bool b
  | .int n => .num (encodeInt n)
  | .str s => .str s
  | .arr items => .arr (documentItems items)
  | .obj members => .obj (documentMembers members)

def documentItems : List Value → Syn (List Char) .items
  | [] => .noItems
  | item :: items => .item (document item) (documentItems items)

def documentMembers : List (String × Value) → Syn (List Char) .members
  | [] => .noMembers
  | (name, value) :: members => .member name (document value) (documentMembers members)
end

mutual
theorem document_plain : (v : Value) → v.document.Plain
  | .null | .bool _ | .str _ => by simp [document, Syn.Plain, Syn.numbers]
  | .int n => by
      simpa [document, Syn.Plain, Syn.numbers] using encodeInt_numberText n
  | .arr items => by
      rw [document]
      exact documentItems_plain items
  | .obj members => by
      rw [document]
      exact documentMembers_plain members

theorem documentItems_plain : (items : List Value) → (documentItems items).Plain
  | [] => by simp [documentItems, Syn.Plain, Syn.numbers]
  | item :: items => by
      rw [documentItems]
      exact List.forall_mem_append.mpr ⟨document_plain item, documentItems_plain items⟩

theorem documentMembers_plain : (members : List (String × Value)) → (documentMembers members).Plain
  | [] => by simp [documentMembers, Syn.Plain, Syn.numbers]
  | (name, value) :: members => by
      rw [documentMembers]
      exact List.forall_mem_append.mpr ⟨document_plain value, documentMembers_plain members⟩
end

mutual
theorem encode_document : (v : Value) → encode v = v.document.chars
  | .null | .bool true | .bool false | .int _ | .str _ => by rw [encode, document, Syn.chars]
  | .arr [] | .obj [] => rfl
  | .arr (item :: items) => by
      rw [encode, document, documentItems, Syn.chars, Syn.chars, encode_document item,
        encodeItems_document items]
      simp
  | .obj ((name, value) :: members) => by
      rw [encode, document, documentMembers, Syn.chars, Syn.chars, encode_document value,
        encodeMembers_document members]
      simp

theorem encodeItems_document : (items : List Value) →
    encodeItems items = (documentItems items).chars ++ [']']
  | [] => by rw [encodeItems, documentItems, Syn.chars]; rfl
  | item :: items => by
      rw [encodeItems, documentItems, Syn.chars, encode_document item, encodeItems_document items]
      simp

theorem encodeMembers_document : (members : List (String × Value)) →
    encodeMembers members = (documentMembers members).chars ++ ['}']
  | [] => by rw [encodeMembers, documentMembers, Syn.chars]; rfl
  | (name, value) :: members => by
      rw [encodeMembers, documentMembers, Syn.chars, encode_document value,
        encodeMembers_document members]
      simp
end

mutual
theorem document_inj : {v w : Value} → v.document = w.document → v = w
  | .null, w, same | .bool _, w, same | .str _, w, same => by
      cases w <;> simp_all [document]
  | .int n, w, same => by
      cases w <;> simp only [document, reduceCtorEq] at same
      rw [encodeInt_injective (Syn.num.inj same)]
  | .arr items, w, same => by
      cases w <;> simp only [document, reduceCtorEq] at same
      rw [documentItems_inj (Syn.arr.inj same)]
  | .obj members, w, same => by
      cases w <;> simp only [document, reduceCtorEq] at same
      rw [documentMembers_inj (Syn.obj.inj same)]

theorem documentItems_inj : {items others : List Value} →
    documentItems items = documentItems others → items = others
  | [], others, same => by
      cases others with
      | nil => rfl
      | cons other others => cases same
  | item :: items, others, same => by
      cases others with
      | nil => cases same
      | cons other others =>
          obtain ⟨head, rest⟩ := Syn.item.inj same
          rw [document_inj head, documentItems_inj rest]

theorem documentMembers_inj : {members others : List (String × Value)} →
    documentMembers members = documentMembers others → members = others
  | [], others, same => by
      cases others with
      | nil => rfl
      | cons other others => cases same
  | (name, value) :: members, others, same => by
      cases others with
      | nil => cases same
      | cons other others =>
          obtain ⟨rfl, head, rest⟩ := Syn.member.inj same
          rw [document_inj head, documentMembers_inj rest]
end

/-- The text of a value determines it. -/
theorem text_injective : Function.Injective text := by
  intro v w same
  have chars : encode v = encode w := String.ofList_injective same
  rw [encode_document, encode_document] at chars
  apply document_inj
  apply Syn.text_inj (document_plain v) (document_plain w)
  rw [Syn.text, Syn.text, chars]

def member (name : String) : Value → Option Value
  | .obj members => members.lookup name
  | _ => none

def first : Value → Option Value
  | .arr (item :: _) => some item
  | _ => none

def string : Value → Option String
  | .str s => some s
  | _ => none

end Value

end Json
