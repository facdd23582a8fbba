import InferenceGateway.Cache.Exact
import InferenceGateway.Server.Reuse

/-! The guard rail of Tier 2. checkCaches drops the error of CanonicalizeJSON, so a field
without a canonical form is compared as an absent one. -/
namespace Gateway.Exact
open Gateway.Providers Json
variable {codec : Codec} {raw raw' : String}

/-- What checkCaches compares of a field. -/
def guardText (codec : Codec) (raw : String) : String := (codec.canonicalizeJSON raw).toOption.getD ""

/-- A field as a client may send it: absent, or any JSON text. -/
def WellFormed (codec : Codec) (raw : String) : Prop := raw = "" ∨ ∃ doc, codec.read raw = .ok doc

/-- A number of the text has no float64. -/
def Overflows (codec : Codec) (raw : String) : Prop :=
  raw ≠ "" ∧ ∃ doc, codec.read raw = .ok doc ∧ ∃ l ∈ doc.numbers, l.float64 = none

/-- Both fields have a canonical form, and it tells their numbers apart; or neither has one,
nothing is compared, and they are the same nevertheless. -/
def Told (codec : Codec) (raw raw' : String) : Prop :=
  (¬ Overflows codec raw ∧ ¬ Overflows codec raw' ∧
      ToldApart (jsonNumbers codec raw) (jsonNumbers codec raw')) ∨
    (Overflows codec raw ∧ Overflows codec raw' ∧ jsonValue codec raw = jsonValue codec raw')

theorem Overflows.guardText_eq (h : Overflows codec raw) : guardText codec raw = "" := by
  obtain ⟨present, doc, read, l, member, lost⟩ := h
  have found : (doc.numbers.find? fun l => l.float64.isNone).isSome = true :=
    List.find?_isSome.mpr ⟨l, member, by rw [lost]; rfl⟩
  obtain ⟨first, found⟩ := Option.isSome_iff_exists.mp found
  simp [guardText, Codec.canonicalizeJSON, Codec.canonicalDocument, Codec.unmarshal, present, read, found,
    Except.toOption]

theorem exists_canonicalDocument (formed : WellFormed codec raw) (fits : ¬ Overflows codec raw) :
    ∃ doc, codec.canonicalDocument raw = .ok doc := by
  by_cases absent : raw = ""
  · exact ⟨none, if_pos absent⟩
  · obtain ⟨doc, read⟩ := formed.resolve_left absent
    have inRange : (doc.numbers.find? fun l => l.float64.isNone) = none := by
      apply List.find?_eq_none.mpr
      intro l member lost
      exact fits ⟨absent, doc, read, l, member, Option.isNone_iff_eq_none.mp lost⟩
    simp [Codec.canonicalDocument, Codec.unmarshal, absent, read, inRange]

theorem guardText_document {doc : Option (Document (List Char))} (h : codec.canonicalDocument raw = .ok doc) :
    guardText codec raw = doc.elim "" Syn.text := by
  unfold guardText Codec.canonicalizeJSON
  rw [h]
  cases doc <;> rfl

/-- Canonical forms are compared by their texts, an absent field by the empty one. -/
theorem document_eq_of_guardText {doc doc' : Option (Document (List Char))}
    (first : codec.canonicalDocument raw = .ok doc) (second : codec.canonicalDocument raw' = .ok doc')
    (same : guardText codec raw = guardText codec raw') : doc = doc' := by
  rw [guardText_document first, guardText_document second] at same
  cases doc with
  | none =>
      cases doc' with
      | none => rfl
      | some d' => exact absurd same.symm (Syn.text_ne_empty (canonicalDocument_plain second))
  | some d =>
      cases doc' with
      | none => exact absurd same (Syn.text_ne_empty (canonicalDocument_plain first))
      | some d' => rw [Syn.text_inj (canonicalDocument_plain first) (canonicalDocument_plain second) same]

/-- Only an absent field is compared as one that overflows is, and they differ. -/
theorem Overflows.jsonValue_ne (h : Overflows codec raw) (formed : WellFormed codec raw')
    (fits : ¬ Overflows codec raw') (same : guardText codec raw = guardText codec raw') :
    jsonValue codec raw ≠ jsonValue codec raw' := by
  obtain ⟨doc, canonical⟩ := exists_canonicalDocument formed fits
  rw [h.guardText_eq, guardText_document canonical] at same
  cases doc with
  | some d => exact absurd same.symm (Syn.text_ne_empty (canonicalDocument_plain canonical))
  | none =>
      obtain ⟨present, doc, read, -⟩ := h
      rw [canonicalDocument_none canonical]
      simp [jsonValue, present, read, Except.toOption]

/-- Two fields compared as equal are one JSON value exactly when they are told. -/
theorem jsonValue_eq_iff_told (formed : WellFormed codec raw) (formed' : WellFormed codec raw')
    (same : guardText codec raw = guardText codec raw') :
    jsonValue codec raw = jsonValue codec raw' ↔ Told codec raw raw' := by
  unfold Told
  by_cases lost : Overflows codec raw
  · by_cases lost' : Overflows codec raw'
    · simp [lost, lost']
    · simp [lost, lost', lost.jsonValue_ne formed' lost' same]
  · by_cases lost' : Overflows codec raw'
    · simp [lost, lost', (lost'.jsonValue_ne formed lost same.symm).symm]
    · obtain ⟨doc, first⟩ := exists_canonicalDocument formed lost
      obtain ⟨doc', second⟩ := exists_canonicalDocument formed' lost'
      cases document_eq_of_guardText first second same
      simp only [lost, lost', not_false_eq_true, true_and, false_and, or_false]
      exact jsonValue_eq_iff first second

end Gateway.Exact

namespace Gateway.Server
open Gateway.Providers Gateway.Exact
open Gateway.Semantic (Query)
open Interaction
open Interaction.Program hiding pure perform

/-- The handlers' CanonicalizeJSON is the package's. -/
def UsesCodec (deps : ChatDeps) (codec : Codec) : Prop :=
  ∀ raw, deps.lib.canonicalizeJSON raw = (codec.canonicalizeJSON raw).toOption

/-- Both fields of a request are absent or JSON. -/
structure Fields (codec : Codec) (req : CanonicalRequest) : Prop where
  tools : WellFormed codec req.tools
  responseFormat : WellFormed codec req.responseFormat

/-- The strings of a Tier-2 lookup. -/
theorem lookup_guardText {deps : ChatDeps} {codec : Codec} (json : UsesCodec deps codec)
    {req : CanonicalRequest} {identity : Auth.Identity} {tr : Trace} {found : Lookup}
    (run : Runs (checkCaches deps req identity) tr found) {q : Query} {reply : Option CanonicalResponse}
    (asked : (⟨.semanticGet q, reply⟩ : Event Op Op.Reply) ∈ tr) :
    q.toolsCanonical = guardText codec req.tools ∧
      q.responseFormatCanonical = guardText codec req.responseFormat := by
  obtain ⟨-, vector, -, rfl⟩ := (checkCaches_cases run).get asked
  simp only [queryOf, guardText, json req.tools, json req.responseFormat, and_self]

/-- Reads one more text, a number no float64 is near. -/
def railCodec : Codec where
  read raw :=
    if raw = "[1e400]" then .ok (.arr (.item (.num ⟨false, 10 ^ 400, by positivity⟩) .noItems))
    else sampleCodec.read raw
  outOfRange := sampleCodec.outOfRange
  float := sampleCodec.float
  float_injective := sampleCodec.float_injective
  float_number := sampleCodec.float_number

/-- Tier 2 alone, with that codec. -/
def railed : ChatDeps :=
  { withTier2 with cache := false, lib := { withTier2.lib with
    canonicalizeJSON := fun raw => (railCodec.canonicalizeJSON raw).toOption } }

/-- A lookup that misses. -/
def looked (tools : String) : Trace :=
  [⟨.embed (concatUserTurns (withTools tools).messages), .ok [.finite 1]⟩,
    ⟨.semanticGet (queryOf railed (withTools tools) caller [.finite 1]), none⟩]

theorem runs_looked (tools : String) :
    ∃ found, Runs (checkCaches railed (withTools tools) caller) (looked tools) found :=
  ⟨_, .request _ (.request _ (.pure _))⟩

theorem bounded_fits {n : String} (read : railCodec.read (bounded n) = .ok (boundedDocument 9007199254740992)) :
    ¬ Overflows railCodec (bounded n) := by
  rintro ⟨-, doc, other, l, member, lost⟩
  cases read.symm.trans other
  cases List.mem_singleton.mp member
  revert lost
  decide +kernel

end Gateway.Server
