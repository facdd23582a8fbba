import InferenceGateway.Providers.Dialect

/-! The other half of the HTTP providers: Complete, which reads a whole JSON response, and
what a response and a stream of deltas have in common. -/
namespace Gateway.Providers
open Interaction Scanner

namespace OpenAI

structure ResponseChoice where
  index : Int
  message : WireMessage
  finishReason : String
  deriving DecidableEq

structure ChatResponse where
  id : String
  object : String
  created : Int
  model : String
  choices : List ResponseChoice
  usage : Usage
  deriving DecidableEq

/-- translateResponse, on the decoded body. -/
def translateResponse (r : ChatResponse) : CanonicalResponse where
  id := r.id
  object := r.object
  created := r.created
  model := r.model
  choices := r.choices.map fun c => ⟨c.index, ⟨c.message.role, c.message.content⟩, c.finishReason⟩
  usage := r.usage

end OpenAI

namespace Anthropic

structure ContentBlock where
  type : String
  text : String
  deriving DecidableEq

structure WireResponse where
  id : String
  model : String
  content : List ContentBlock
  stopReason : String
  inputTokens : Int64
  outputTokens : Int64
  deriving DecidableEq

def responseText (content : List ContentBlock) : String :=
  content.foldl (fun text block => if block.type = "text" then text ++ block.text else text) ""

/-- translateResponse, on the decoded body; the time stands in for a timestamp. -/
def translateResponse (now : Int) (r : WireResponse) : CanonicalResponse where
  id := r.id
  object := "chat.completion"
  created := now
  model := r.model
  choices := [⟨0, ⟨"assistant", responseText r.content⟩, mapStopReason r.stopReason⟩]
  usage := ⟨r.inputTokens, r.outputTokens, r.inputTokens + r.outputTokens⟩

end Anthropic

/-- A dialect with both its halves: the decoders of its stream and of its response. -/
inductive Endpoint where
  | openai (c : OpenAI.Codec) (unmarshalResponse : Bytes → Except String OpenAI.ChatResponse)
  | anthropic (c : Anthropic.Codec) (unmarshalResponse : Bytes → Except String Anthropic.WireResponse)

namespace Endpoint

def dialect : Endpoint → Dialect
  | openai c _ => .openai c
  | anthropic c _ => .anthropic c

def label : Endpoint → String
  | openai _ _ => "openai"
  | anthropic _ _ => "anthropic"

def errorMessage : Endpoint → Bytes → String
  | openai c _ => c.errorMessage
  | anthropic c _ => c.errorMessage

def decode (now : Int) : Endpoint → Bytes → Except String CanonicalResponse
  | openai _ unmarshalResponse, body => (unmarshalResponse body).map OpenAI.translateResponse
  | anthropic _ unmarshalResponse, body =>
      (unmarshalResponse body).map (Anthropic.translateResponse now)

/-- Complete, from the answer of its request on; the body is read before the status is looked
at. -/
def complete (e : Endpoint) (now : Int) : Except CallError Upstream → Except CallError CanonicalResponse
  | .error err => .error err
  | .ok u =>
      match u.failure with
      | some err => .error (.other (e.label ++ ": read response: " ++ err))
      | none =>
          if 400 ≤ u.status then
            .error (.api { statusCode := u.status, message := e.errorMessage u.body,
                           retryAfter := u.retryAfter })
          else
            match e.decode now u.body with
            | .error err => .error (.other (e.label ++ ": decode response: " ++ err))
            | .ok resp => .ok resp

end Endpoint

/-- What an answer amounts to, however it is delivered. -/
structure Gist where
  content : String := ""
  finishReason : String := ""
  usage : Option Usage := none
  deriving DecidableEq

def Gist.hear (g : Gist) (d : Delta) : Gist where
  content := g.content ++ d.content
  finishReason := if d.finishReason = "" then g.finishReason else d.finishReason
  usage := d.usage.or g.usage

def gistOf (deltas : List Delta) : Gist := deltas.foldl Gist.hear {}

theorem gistOf_append_single (deltas : List Delta) (d : Delta) :
    gistOf (deltas ++ [d]) = (gistOf deltas).hear d := by
  simp [gistOf]

/-- Deltas that only bring text. -/
theorem gistOf_texts (texts : List String) :
    gistOf (texts.map fun text => { content := text }) = { content := String.join texts } := by
  induction texts using List.reverseRecOn with
  | nil => rfl
  | append_singleton texts text ih =>
      rw [List.map_append, List.map_cons, List.map_nil, gistOf_append_single, ih, String.join_append]
      simp [Gist.hear]

section Reading
variable {σ : Type} {react : σ → Bytes → Reaction × σ} {ending : Option CallError}

/-- What a read loop sends and returns if every delta is received. -/
def emissions (react : σ → Bytes → Reaction × σ) (ending : Option CallError) :
    σ → List Bytes → List Delta × Option CallError
  | _, [] => ([], ending)
  | s, line :: lines =>
      match react s line with
      | (.skip, s) => emissions react ending s lines
      | (.finish, _) => ([], none)
      | (.fail err, _) => ([], some err)
      | (.emit d, s) => (d :: (emissions react ending s lines).1, (emissions react ending s lines).2)

/-- A run of a read loop sends everything, or is cut short by its context. -/
theorem readLines_emissions {s : σ} {lines : List Bytes}
    {tr : List (Event SendOp SendOp.Reply)} {err : Option CallError}
    (h : Program.Runs (readLines react ending s lines) tr err) :
    (err = (emissions react ending s lines).2 ∧
        tr.filterMap received = (emissions react ending s lines).1) ∨
      ∃ ce, err = some (.ctx ce) ∧ tr.filterMap received <+: (emissions react ending s lines).1 := by
  induction lines generalizing s tr with
  | nil =>
      obtain ⟨rfl, rfl⟩ := Program.runs_pure.mp h
      exact .inl ⟨rfl, rfl⟩
  | cons line lines ih =>
      rw [readLines] at h
      rw [emissions]
      rcases reaction : react s line with ⟨r, s'⟩
      rw [reaction] at h
      cases r with
      | skip => exact ih h
      | finish =>
          obtain ⟨rfl, rfl⟩ := Program.runs_pure.mp h
          exact .inl ⟨rfl, rfl⟩
      | fail failure =>
          obtain ⟨rfl, rfl⟩ := Program.runs_pure.mp h
          exact .inl ⟨rfl, rfl⟩
      | emit d =>
          obtain ⟨done, tr', rfl, later⟩ := Program.runs_perform_bind.mp h
          cases done with
          | some ce =>
              obtain ⟨rfl, rfl⟩ := Program.runs_pure.mp later
              exact .inr ⟨ce, rfl, List.nil_prefix⟩
          | none =>
              obtain ⟨same, sent⟩ | ⟨ce, same, cut⟩ := ih later
              · exact .inl ⟨same, congrArg (d :: ·) sent⟩
              · exact .inr ⟨ce, same, List.cons_prefix_cons.mpr ⟨rfl, cut⟩⟩

end Reading
end Gateway.Providers
