import InferenceGateway.Arith.Ieee
import InferenceGateway.Json.Text
import InferenceGateway.Providers.Types

/-! The canonical form behind the Tier-1 key (internal/cache/exact). What the package takes
from encoding/json is a parameter: the syntax of a raw message, and the text of a float64. -/
namespace Gateway.Exact
open Gateway.Providers Json

/-- A number as it stands in a JSON text, exactly. -/
structure Literal where
  negative : Bool
  magnitude : ℚ
  nonneg : 0 ≤ magnitude

def Literal.value (l : Literal) : ℚ := if l.negative then -l.magnitude else l.magnitude

/-- A finite float64; zero has a sign. -/
structure Float64 where
  negative : Bool
  magnitude : ℚ
  nonneg : 0 ≤ magnitude
  deriving DecidableEq

def Float64.zero (negative : Bool) : Float64 := ⟨negative, 0, le_rfl⟩

/-- The float64 a number is decoded to; out of range is an error. -/
def Literal.float64 (l : Literal) : Option Float64 :=
  match rounded : Ieee.binary64.round l.magnitude with
  | .finite m => some ⟨l.negative, m, Ieee.Format.round_nonneg l.nonneg rounded⟩
  | .infinite _ | .nan => none

/-- Errors are texts: of the syntax, and of a number out of range. -/
structure Codec where
  read : String → Except String (Document Literal)
  outOfRange : Literal → String
  float : Float64 → List Char
  float_injective : Function.Injective float
  float_number : ∀ f, NumberText (float f)

namespace Codec
variable (codec : Codec)

/-- json.Unmarshal into an interface: numbers become float64, objects become maps, and the
first number out of range, even one that is overwritten, is the error. -/
def unmarshal (raw : String) : Except String (Document Float64) :=
  match codec.read raw with
  | .error err => .error err
  | .ok doc =>
      match doc.numbers.find? fun l => l.float64.isNone with
      | some l => .error (codec.outOfRange l)
      | none => .ok (doc.normalize.map fun l => l.float64.getD (.zero l.negative))

/-- CanonicalizeJSON before its result is written out; an absent message stays absent. -/
def canonicalDocument (raw : String) : Except String (Option (Document (List Char))) :=
  if raw = "" then .ok none
  else
    match codec.unmarshal raw with
    | .error err => .error err
    | .ok v => .ok (some (v.map codec.float))

def canonicalizeJSON (raw : String) : Except String String :=
  match codec.canonicalDocument raw with
  | .error err => .error err
  | .ok none => .ok ""
  | .ok (some doc) => .ok doc.text

def floatField (q : ℚ) : Document (List Char) := .num (codec.float ⟨q < 0, |q|, abs_nonneg q⟩)

end Codec

def intField (n : Int64) : Document (List Char) := .num (encodeInt n.toInt)

def messageField (m : Message) : Document (List Char) :=
  .obj (.member "role" (.str m.role) (.member "content" (.str m.content) .noMembers))

def stringsField (texts : List String) : Document (List Char) := .arr (Syn.ofList (texts.map .str))

/-- The document json.Marshal makes of canonicalFields. -/
def canonicalFields (codec : Codec) (req : CanonicalRequest)
    (responseFormat tools : Option (Document (List Char))) : Document (List Char) :=
  .obj (.member "model" (.str req.model)
    (.member "messages" (.arr (Syn.ofList (req.messages.map messageField)))
    (Syn.optional "temperature" (req.temperature.map codec.floatField)
    (Syn.optional "top_p" (req.topP.map codec.floatField)
    (Syn.optional "max_tokens" (req.maxTokens.map intField)
    (Syn.optional "stop" (if req.stop = [] then none else some (stringsField req.stop))
    (Syn.optional "seed" (req.seed.map intField)
    (Syn.optional "response_format" responseFormat
    (Syn.optional "tools" tools .noMembers)))))))))

def canonicalize (codec : Codec) (req : CanonicalRequest) : Except String String :=
  match codec.canonicalDocument req.responseFormat with
  | .error err => .error ("exact: canonicalize response_format: " ++ err)
  | .ok responseFormat =>
      match codec.canonicalDocument req.tools with
      | .error err => .error ("exact: canonicalize tools: " ++ err)
      | .ok tools => .ok (canonicalFields codec req responseFormat tools).text

/-- The JSON value of a raw message, its numbers exact; none if there is no message. -/
def jsonValue (codec : Codec) (raw : String) : Option (Document ℚ) :=
  if raw = "" then none
  else (codec.read raw).toOption.map fun doc => (doc.map Literal.value).normalize

/-- The numbers of that value, in its order. -/
def jsonNumbers (codec : Codec) (raw : String) : List Literal :=
  if raw = "" then []
  else (codec.read raw).toOption.elim [] fun doc => doc.normalize.numbers

structure Agrees (codec : Codec) (a b : CanonicalRequest) : Prop where
  model : a.model = b.model
  messages : a.messages = b.messages
  temperature : a.temperature = b.temperature
  topP : a.topP = b.topP
  maxTokens : a.maxTokens = b.maxTokens
  stop : a.stop = b.stop
  seed : a.seed = b.seed
  responseFormat : jsonValue codec a.responseFormat = jsonValue codec b.responseFormat
  tools : jsonValue codec a.tools = jsonValue codec b.tools

/-- Numbers at the same place that have one float64 are one number. -/
def ToldApart (ls ms : List Literal) : Prop :=
  ∀ pair ∈ ls.zip ms, pair.1.float64 = pair.2.float64 → pair.1.value = pair.2.value

theorem map_eq_iff_zip {α β γ : Type} {f : α → β} {g : α → γ} {xs ys : List α}
    (alike : xs.map f = ys.map f) :
    xs.map g = ys.map g ↔ ∀ pair ∈ xs.zip ys, f pair.1 = f pair.2 → g pair.1 = g pair.2 := by
  induction xs generalizing ys with
  | nil =>
      cases ys with
      | nil => simp
      | cons y ys => cases alike
  | cons x xs ih =>
      cases ys with
      | nil => cases alike
      | cons y ys =>
          simp only [List.map_cons, List.cons.injEq] at alike
          simp only [List.map_cons, List.cons.injEq, List.zip_cons_cons, List.forall_mem_cons,
            ih alike.2, alike.1, forall_const]

theorem canonicalDocument_some {codec : Codec} {raw : String} {doc : Document (List Char)}
    (h : codec.canonicalDocument raw = .ok (some doc)) :
    ∃ source, raw ≠ "" ∧ codec.read raw = .ok source ∧ (∀ l ∈ source.numbers, l.float64.isSome) ∧
      doc = (source.normalize.map fun l => l.float64.getD (.zero l.negative)).map codec.float := by
  unfold Codec.canonicalDocument at h
  split at h
  · cases h
  · rename_i present
    unfold Codec.unmarshal at h
    cases read : codec.read raw with
    | error err => simp [read] at h
    | ok source =>
        cases searched : source.numbers.find? fun l => l.float64.isNone with
        | some l => simp [read, searched] at h
        | none =>
            simp only [read, searched, Except.ok.injEq, Option.some.injEq] at h
            refine ⟨source, present, rfl, fun l member => ?_, h.symm⟩
            have inRange := List.find?_eq_none.mp searched l member
            simpa [Option.isSome_iff_ne_none] using inRange

theorem canonicalDocument_none {codec : Codec} {raw : String}
    (h : codec.canonicalDocument raw = .ok none) : raw = "" := by
  unfold Codec.canonicalDocument at h
  split at h
  · assumption
  · cases done : codec.unmarshal raw <;> simp [done] at h

theorem canonicalDocument_plain {codec : Codec} {raw : String} {doc : Document (List Char)}
    (h : codec.canonicalDocument raw = .ok (some doc)) : doc.Plain := by
  obtain ⟨source, -, -, -, rfl⟩ := canonicalDocument_some h
  intro text member
  rw [Syn.numbers_map, List.mem_map] at member
  obtain ⟨f, -, rfl⟩ := member
  exact codec.float_number f

/-- Two raw messages of one canonical form are one JSON value exactly when their numbers are
told apart. -/
theorem jsonValue_eq_iff {codec : Codec} {raw raw' : String} {doc : Option (Document (List Char))}
    (first : codec.canonicalDocument raw = .ok doc)
    (second : codec.canonicalDocument raw' = .ok doc) :
    jsonValue codec raw = jsonValue codec raw' ↔
      ToldApart (jsonNumbers codec raw) (jsonNumbers codec raw') := by
  cases doc with
  | none =>
      rw [canonicalDocument_none first, canonicalDocument_none second]
      simp [jsonNumbers, ToldApart]
  | some doc =>
      obtain ⟨source, present, read, inRange, rfl⟩ := canonicalDocument_some first
      obtain ⟨source', present', read', inRange', same⟩ := canonicalDocument_some second
      have floats := Syn.map_injective codec.float_injective same
      have decoded {doc : Document Literal} (all : ∀ l ∈ doc.numbers, l.float64.isSome) :
          doc.normalize.numbers.map Literal.float64 = (doc.normalize.map fun l =>
            l.float64.getD (.zero l.negative)).numbers.map some := by
        rw [Syn.numbers_map, List.map_map]
        refine List.map_congr_left fun l member => ?_
        obtain ⟨f, known⟩ := Option.isSome_iff_exists.mp (all l (Syn.numbers_normalize doc member))
        simp [known]
      have alike : source.normalize.numbers.map Literal.float64 =
          source'.normalize.numbers.map Literal.float64 := by
        rw [decoded inRange, decoded inRange', floats]
      simp only [jsonValue, jsonNumbers, present, present', if_false, read, read',
        Except.toOption, Option.map_some, Option.some.injEq, Option.elim_some, Syn.normalize_map]
      rw [Syn.map_eq_iff_numbers Literal.value floats, map_eq_iff_zip alike]
      rfl

theorem floatField_injective (codec : Codec) : Function.Injective codec.floatField := by
  intro p q same
  simp only [Codec.floatField, Syn.num.injEq] at same
  have float := codec.float_injective same
  simp only [Float64.mk.injEq, decide_eq_decide] at float
  rcases abs_eq_abs.mp float.2 with equal | opposite
  · exact equal
  · rcases lt_trichotomy p 0 with below | rfl | above
    · linarith [float.1.mp below]
    · linarith
    · linarith [float.1.mpr (by linarith)]

theorem intField_injective : Function.Injective intField := by
  intro m n same
  simp only [intField, Syn.num.injEq] at same
  exact Int64.toInt_inj.mp (encodeInt_injective same)

theorem messageField_injective : Function.Injective messageField := by
  rintro ⟨role, content⟩ ⟨role', content'⟩ same
  simp only [messageField, Syn.obj.injEq, Syn.member.injEq, Syn.str.injEq, true_and, and_true] at same
  rw [same.1, same.2]

theorem stringsField_injective : Function.Injective stringsField := by
  intro texts texts' same
  simp only [stringsField, Syn.arr.injEq] at same
  have str : Function.Injective (Syn.str : String → Document (List Char)) := fun _ _ => Syn.str.inj
  exact str.list_map (Syn.ofList_injective same)

theorem canonicalFields_plain {codec : Codec} {req : CanonicalRequest}
    {responseFormat tools : Option (Document (List Char))}
    (format : ∀ d ∈ responseFormat, d.Plain) (tooling : ∀ d ∈ tools, d.Plain) :
    (canonicalFields codec req responseFormat tools).Plain := by
  have number {text : List Char} (fine : NumberText text) :
      (Syn.num text : Document (List Char)).Plain := fun _ member => List.mem_singleton.mp member ▸ fine
  have floats (q : Option ℚ) : ∀ d ∈ q.map codec.floatField, d.Plain := by
    rintro d member
    obtain ⟨x, -, rfl⟩ := Option.mem_map.mp member
    exact number (codec.float_number _)
  have ints (n : Option Int64) : ∀ d ∈ n.map intField, d.Plain := by
    rintro d member
    obtain ⟨x, -, rfl⟩ := Option.mem_map.mp member
    exact number (encodeInt_numberText _)
  have strings : ∀ d ∈ (if req.stop = [] then none else some (stringsField req.stop)), d.Plain := by
    intro d member
    split at member
    · cases member
    · cases member
      refine Syn.Plain.ofList fun v listed => ?_
      obtain ⟨s, -, rfl⟩ := List.mem_map.mp listed
      nofun
  have messages : (Syn.ofList (req.messages.map messageField)).Plain := by
    refine Syn.Plain.ofList fun v listed => ?_
    obtain ⟨m, -, rfl⟩ := List.mem_map.mp listed
    nofun
  have rest : (Syn.noMembers : Syn (List Char) .members).Plain := nofun
  exact .member nofun (.member messages (.optional (floats _) (.optional (floats _)
    (.optional (ints _) (.optional strings (.optional (ints _) (.optional format
      (.optional tooling rest))))))))

/-- The fields of two equal documents, one by one. -/
theorem canonicalFields_inj {codec : Codec} {a b : CanonicalRequest}
    {format format' tools tools' : Option (Document (List Char))}
    (same : canonicalFields codec a format tools = canonicalFields codec b format' tools') :
    a.model = b.model ∧ a.messages = b.messages ∧ a.temperature = b.temperature ∧
      a.topP = b.topP ∧ a.maxTokens = b.maxTokens ∧ a.stop = b.stop ∧ a.seed = b.seed ∧
      format = format' ∧ tools = tools' := by
  simp only [canonicalFields, Syn.obj.injEq, Syn.member.injEq, Syn.str.injEq, Syn.arr.injEq,
    true_and] at same
  obtain ⟨model, messages, fields⟩ := same
  obtain ⟨temperature, fields⟩ := Syn.optional_inj fields (by simp [Syn.names]) (by simp [Syn.names])
  obtain ⟨topP, fields⟩ := Syn.optional_inj fields (by simp [Syn.names]) (by simp [Syn.names])
  obtain ⟨maxTokens, fields⟩ := Syn.optional_inj fields (by simp [Syn.names]) (by simp [Syn.names])
  obtain ⟨stop, fields⟩ := Syn.optional_inj fields (by simp [Syn.names]) (by simp [Syn.names])
  obtain ⟨seed, fields⟩ := Syn.optional_inj fields (by simp [Syn.names]) (by simp [Syn.names])
  obtain ⟨formats, fields⟩ := Syn.optional_inj fields (by simp [Syn.names]) (by simp [Syn.names])
  obtain ⟨tooling, -⟩ := Syn.optional_inj fields (by simp [Syn.names]) (by simp [Syn.names])
  have stops : a.stop = b.stop := by
    split_ifs at stop with none none'
    · rw [none, none']
    · exact stringsField_injective (Option.some.inj stop)
  exact ⟨model, messageField_injective.list_map (Syn.ofList_injective messages),
    Option.map_injective (floatField_injective codec) temperature,
    Option.map_injective (floatField_injective codec) topP,
    Option.map_injective intField_injective maxTokens, stops,
    Option.map_injective intField_injective seed, formats, tooling⟩

theorem canonicalize_ok {codec : Codec} {req : CanonicalRequest} {text : String}
    (h : canonicalize codec req = .ok text) :
    ∃ format tools, codec.canonicalDocument req.responseFormat = .ok format ∧
      codec.canonicalDocument req.tools = .ok tools ∧
      text = (canonicalFields codec req format tools).text ∧
      (canonicalFields codec req format tools).Plain := by
  unfold canonicalize at h
  cases format : codec.canonicalDocument req.responseFormat with
  | error err => simp [format] at h
  | ok doc =>
      cases tools : codec.canonicalDocument req.tools with
      | error err => simp [format, tools] at h
      | ok doc' =>
          simp only [format, tools, Except.ok.injEq] at h
          refine ⟨doc, doc', rfl, rfl, h.symm, canonicalFields_plain ?_ ?_⟩
          · rintro d rfl
            exact canonicalDocument_plain format
          · rintro d rfl
            exact canonicalDocument_plain tools

/-- An integer in decimal, any other magnitude as numerator and denominator. -/
def fractionText (f : Float64) : List Char :=
  (if f.negative then ['-'] else []) ++ (Nat.toDigits 10 f.magnitude.num.natAbs ++
    if f.magnitude.den = 1 then [] else 'E' :: Nat.toDigits 10 f.magnitude.den)

theorem fractionText_number (f : Float64) : NumberText (fractionText f) := by
  have digits (n : Nat) := (toDigits_numberText n).2
  refine ⟨by simp [fractionText], ?_⟩
  unfold fractionText
  simp only [List.forall_mem_append]
  refine ⟨?_, digits _, ?_⟩
  · split
    · simp [isNumberChar]
    · simp
  · split
    · simp
    · exact List.forall_mem_cons.mpr ⟨by decide, digits _⟩

theorem fractionText_injective : Function.Injective fractionText := by
  have unsigned (n : Nat) (x y : List Char) : Nat.toDigits 10 n ++ x ≠ '-' :: y := by
    intro same
    obtain ⟨c, rest, head⟩ := List.exists_cons_of_ne_nil (Nat.toDigits_ne_nil (n := n) (b := 10))
    have digit : c.isDigit = true :=
      Nat.isDigit_of_mem_toDigits (by decide) (by decide) (head ▸ List.mem_cons_self)
    rw [head] at same
    cases (List.cons.inj same).1
    cases digit
  have whole (n : Nat) (d : Nat) : (Nat.toDigits 10 n ++
      if d = 1 then [] else 'E' :: Nat.toDigits 10 d).takeWhile Char.isDigit = Nat.toDigits 10 n := by
    rw [List.takeWhile_append_of_pos fun c member =>
      Nat.isDigit_of_mem_toDigits (by decide) (by decide) member]
    split
    · simp
    · simp
  rintro ⟨negative, p, nonneg⟩ ⟨negative', q, nonneg'⟩ same
  have sign : negative = negative' := by
    cases negative <;> cases negative' <;> simp only [fractionText] at same
    · rfl
    · exact absurd same (unsigned _ _ _)
    · exact absurd same.symm (unsigned _ _ _)
    · rfl
  subst sign
  have magnitudes := List.append_cancel_left same
  have num : p.num.natAbs = q.num.natAbs := by
    apply toDigits_injective
    rw [← whole p.num.natAbs p.den, magnitudes, whole]
  have den : p.den = q.den := by
    rw [num] at magnitudes
    have rest := List.append_cancel_left magnitudes
    split_ifs at rest with one one'
    · rw [one, one']
    · exact toDigits_injective (List.cons.inj rest).2
  have equal : p = q := by
    apply Rat.ext _ den
    have := Rat.num_nonneg.mpr nonneg
    have := Rat.num_nonneg.mpr nonneg'
    omega
  subst equal
  rfl

/-- A tool whose parameter is bounded by `n`. -/
def bounded (n : String) : String := "[\x7b\"maximum\":" ++ n ++ "\x7d]"

def boundedDocument (n : Nat) : Document Literal :=
  .arr (.item (.obj (.member "maximum" (.num ⟨false, n, Nat.cast_nonneg n⟩) .noMembers)) .noItems)

/-- Reads the three texts below and floats by fractions. -/
def sampleCodec : Codec where
  read raw :=
    if raw = bounded "9007199254740992" then .ok (boundedDocument 9007199254740992)
    else if raw = bounded "9007199254740992.0" then .ok (boundedDocument 9007199254740992)
    else if raw = bounded "9007199254740993" then .ok (boundedDocument 9007199254740993)
    else .error "unexpected end of JSON input"
  outOfRange _ := "json: cannot unmarshal number into Go value of type float64"
  float := fractionText
  float_injective := fractionText_injective
  float_number := fractionText_number

def withTools (tools : String) : CanonicalRequest :=
  { model := "chat", messages := [⟨"user", "hi"⟩], tools }

def boundedKey : String :=
  "\x7b\"model\":\"chat\",\"messages\":[\x7b\"role\":\"user\",\"content\":\"hi\"\x7d]," ++
    "\"tools\":[\x7b\"maximum\":9007199254740992\x7d]\x7d"

end Gateway.Exact
