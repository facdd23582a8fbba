import Mathlib

/-! JSON documents over a type of numbers. Values, lists of items and lists of members are
one family, so that a function or a proof about documents is a single recursion. -/
namespace Json

inductive Kind where
  | value
  | items
  | members
  deriving DecidableEq

inductive Syn (ν : Type) : Kind → Type where
  | null : Syn ν .value
  | bool (b : Bool) : Syn ν .value
  | num (n : ν) : Syn ν .value
  | str (s : String) : Syn ν .value
  | arr (items : Syn ν .items) : Syn ν .value
  | obj (members : Syn ν .members) : Syn ν .value
  | noItems : Syn ν .items
  | item (head : Syn ν .value) (rest : Syn ν .items) : Syn ν .items
  | noMembers : Syn ν .members
  | member (name : String) (value : Syn ν .value) (rest : Syn ν .members) : Syn ν .members
  deriving DecidableEq

abbrev Document (ν : Type) := Syn ν .value

namespace Syn
variable {ν μ κ : Type} {k : Kind}

def map (f : ν → μ) : {k : Kind} → Syn ν k → Syn μ k
  | _, .null => .null
  | _, .bool b => .bool b
  | _, .num n => .num (f n)
  | _, .str s => .str s
  | _, .arr items => .arr (items.map f)
  | _, .obj members => .obj (members.map f)
  | _, .noItems => .noItems
  | _, .item head rest => .item (head.map f) (rest.map f)
  | _, .noMembers => .noMembers
  | _, .member name value rest => .member name (value.map f) (rest.map f)

/-- The numbers of a document, in the order they stand in it. -/
def numbers : {k : Kind} → Syn ν k → List ν
  | _, .null | _, .bool _ | _, .str _ | _, .noItems | _, .noMembers => []
  | _, .num n => [n]
  | _, .arr items => items.numbers
  | _, .obj members => members.numbers
  | _, .item head rest => head.numbers ++ rest.numbers
  | _, .member _ value rest => value.numbers ++ rest.numbers

def names : {k : Kind} → Syn ν k → List String
  | _, .member name _ rest => name :: rest.names
  | _, _ => []

/-- A list of items from its elements. -/
def ofList : List (Syn ν .value) → Syn ν .items
  | [] => .noItems
  | v :: vs => .item v (ofList vs)

/-- A member that is left out when there is no value. -/
def optional (name : String) (value : Option (Syn ν .value)) (rest : Syn ν .members) :
    Syn ν .members :=
  match value with
  | some v => .member name v rest
  | none => rest

/-- Adds a member to members sorted by name, unless the name is taken. -/
def place (name : String) (v : Syn ν .value) : {k : Kind} → Syn ν k → Syn ν k
  | _, .noMembers => .member name v .noMembers
  | _, .member other w rest =>
      if name < other then .member name v (.member other w rest)
      else if name = other then .member other w rest
      else .member other w (place name v rest)
  | _, other => other

/-- Objects as maps: members sorted by name, the last of a name standing for all. -/
def normalize : {k : Kind} → Syn ν k → Syn ν k
  | _, .null => .null
  | _, .bool b => .bool b
  | _, .num n => .num n
  | _, .str s => .str s
  | _, .arr items => .arr items.normalize
  | _, .obj members => .obj members.normalize
  | _, .noItems => .noItems
  | _, .item head rest => .item head.normalize rest.normalize
  | _, .noMembers => .noMembers
  | _, .member name value rest => place name value.normalize rest.normalize

theorem place_map (f : ν → μ) (name : String) (v : Syn ν .value) (t : Syn ν k) :
    (place name v t).map f = place name (v.map f) (t.map f) := by
  induction t with
  | member other w rest _ ih =>
      simp only [place, map]
      split
      · rfl
      · split
        · rfl
        · simp only [map, ih]
  | _ => rfl

theorem normalize_map (f : ν → μ) (t : Syn ν k) : (t.map f).normalize = t.normalize.map f := by
  induction t with
  | null | bool | num | str | noItems | noMembers => rfl
  | arr items ih | obj members ih => simp only [map, normalize, ih]
  | item head rest ihHead ihRest => simp only [map, normalize, ihHead, ihRest]
  | member name value rest ihValue ihRest =>
      simp only [map, normalize, ihValue, ihRest, place_map]

theorem map_id (t : Syn ν k) : t.map id = t := by
  induction t with
  | null | bool | num | str | noItems | noMembers => rfl
  | arr items ih | obj members ih => simp only [map, ih]
  | item head rest ihHead ihRest => simp only [map, ihHead, ihRest]
  | member name value rest ihValue ihRest => simp only [map, ihValue, ihRest]

theorem numbers_map (f : ν → μ) (t : Syn ν k) : (t.map f).numbers = t.numbers.map f := by
  induction t with
  | null | bool | num | str | noItems | noMembers => rfl
  | arr items ih | obj members ih => simp only [map, numbers, ih]
  | item head rest ihHead ihRest => simp only [map, numbers, ihHead, ihRest, List.map_append]
  | member name value rest ihValue ihRest =>
      simp only [map, numbers, ihValue, ihRest, List.map_append]

theorem numbers_place (name : String) (v : Syn ν .value) (t : Syn ν k) :
    (place name v t).numbers ⊆ v.numbers ++ t.numbers := by
  induction t with
  | noMembers => simp [place, numbers]
  | member other w rest _ ih =>
      unfold place
      split
      · simp [numbers]
      · split
        · exact List.subset_append_right _ _
        · simp only [numbers]
          intro n member
          have := ih (a := n)
          grind
  | _ => exact List.subset_append_right _ _

/-- A member that is overwritten takes its numbers with it; no others are lost or added. -/
theorem numbers_normalize (t : Syn ν k) : t.normalize.numbers ⊆ t.numbers := by
  induction t with
  | null | bool | num | str | noItems | noMembers => exact List.Subset.refl _
  | arr items ih | obj members ih => exact ih
  | item head rest ihHead ihRest =>
      exact List.append_subset.mpr ⟨List.Subset.trans ihHead (List.subset_append_left _ _),
        List.Subset.trans ihRest (List.subset_append_right _ _)⟩
  | member name value rest ihValue ihRest =>
      exact List.Subset.trans (numbers_place _ _ _) (List.append_subset.mpr
        ⟨List.Subset.trans ihValue (List.subset_append_left _ _),
          List.Subset.trans ihRest (List.subset_append_right _ _)⟩)

/-- Two documents that one view of their numbers makes equal differ at most in numbers. -/
theorem map_eq_iff_numbers {f : ν → μ} {t u : Syn ν k} (g : ν → κ) (alike : t.map f = u.map f) :
    t.map g = u.map g ↔ t.numbers.map g = u.numbers.map g := by
  have paired {k l : Kind} {a b : Syn ν k} {c d : Syn ν l} (first : a.map f = b.map f) :
      (a.numbers ++ c.numbers).map g = (b.numbers ++ d.numbers).map g ↔
        a.numbers.map g = b.numbers.map g ∧ c.numbers.map g = d.numbers.map g := by
    have length : (a.numbers.map g).length = (b.numbers.map g).length := by
      have same := congrArg (fun s => s.numbers.length) first
      simpa only [numbers_map, List.length_map] using same
    rw [List.map_append, List.map_append]
    exact ⟨fun same => List.append_inj same length, fun both => by rw [both.1, both.2]⟩
  induction t with
  | null | bool | str | noItems | noMembers =>
      cases u <;> cases alike
      exact iff_of_true rfl rfl
  | num n =>
      cases u with
      | num m => simp only [map, numbers, num.injEq, List.map_cons, List.map_nil, List.cons.injEq, and_true]
      | _ => cases alike
  | arr items ih =>
      cases u <;> simp only [map, reduceCtorEq] at alike
      simp only [map, numbers, arr.injEq] at alike ⊢
      exact ih alike
  | obj members ih =>
      cases u <;> simp only [map, reduceCtorEq] at alike
      simp only [map, numbers, obj.injEq] at alike ⊢
      exact ih alike
  | item head rest ihHead ihRest =>
      cases u <;> simp only [map, reduceCtorEq] at alike
      simp only [map, numbers, item.injEq] at alike ⊢
      exact (and_congr (ihHead alike.1) (ihRest alike.2)).trans (paired alike.1).symm
  | member name value rest ihValue ihRest =>
      cases u <;> simp only [map, reduceCtorEq] at alike
      simp only [map, numbers, member.injEq] at alike ⊢
      rw [and_iff_right alike.1]
      exact (and_congr (ihValue alike.2.1) (ihRest alike.2.2)).trans (paired alike.2.1).symm

theorem map_injective {f : ν → μ} (inj : Function.Injective f) :
    Function.Injective (map f : Syn ν k → Syn μ k) := by
  intro t u same
  have numbers : t.numbers.map f = u.numbers.map f := by
    rw [← numbers_map, same, numbers_map]
  have plain := (map_eq_iff_numbers id same).mpr (by simpa using inj.list_map numbers)
  rwa [map_id, map_id] at plain

theorem ofList_injective : Function.Injective (ofList : List (Syn ν .value) → Syn ν .items) := by
  intro vs ws same
  induction vs generalizing ws with
  | nil =>
      cases ws with
      | nil => rfl
      | cons w ws => cases same
  | cons v vs ih =>
      cases ws with
      | nil => cases same
      | cons w ws =>
          simp only [ofList, item.injEq] at same
          rw [same.1, ih same.2]

@[simp] theorem mem_names_optional {name other : String} {value : Option (Syn ν .value)}
    {rest : Syn ν .members} :
    other ∈ (optional name value rest).names ↔ other = name ∧ value.isSome ∨ other ∈ rest.names := by
  cases value <;> simp [optional, names]

theorem optional_inj {name : String} {v w : Option (Syn ν .value)} {rest others : Syn ν .members}
    (same : optional name v rest = optional name w others) (absent : name ∉ rest.names)
    (absent' : name ∉ others.names) : v = w ∧ rest = others := by
  cases v with
  | none =>
      cases w with
      | none => exact ⟨rfl, same⟩
      | some w =>
          have names : rest.names = name :: others.names := congrArg names same
          simp [names] at absent
  | some v =>
      cases w with
      | none =>
          have names : name :: rest.names = others.names := congrArg names same
          simp [← names] at absent'
      | some w =>
          simp only [optional, member.injEq] at same
          exact ⟨congrArg some same.2.1, same.2.2⟩

end Syn

end Json
