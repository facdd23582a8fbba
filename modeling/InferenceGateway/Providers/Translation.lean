import InferenceGateway.Cache.Exact
import InferenceGateway.Providers.Dialect

/-! What a provider sees of the fields that tell two requests apart in the Tier-1 key: the
request it sends is compared with the canonical form its answer is stored under. -/
namespace Gateway.Providers
open Exact

/-- The messages of a conversation proper. -/
def turns (messages : List Message) : List Message :=
  messages.filter fun m => m.role = "user" ∨ m.role = "assistant"

/-- Agreement on the fields of canonicalFields, system messages apart; a default may stand
for an absent max_tokens. -/
structure AgreesOnKey (codec : Exact.Codec) (a b : CanonicalRequest) : Prop where
  model : a.model = b.model
  messages : turns a.messages = turns b.messages
  temperature : a.temperature = b.temperature
  topP : a.topP = b.topP
  maxTokens : ∀ m ∈ a.maxTokens, ∀ n ∈ b.maxTokens, m = n
  stop : a.stop = b.stop
  seed : a.seed = b.seed
  responseFormat : jsonValue codec a.responseFormat = jsonValue codec b.responseFormat
  tools : jsonValue codec a.tools = jsonValue codec b.tools

/-- Agreement on the fields an Anthropic request has no room for. -/
structure AgreesOnUnsent (codec : Exact.Codec) (a b : CanonicalRequest) : Prop where
  seed : a.seed = b.seed
  responseFormat : jsonValue codec a.responseFormat = jsonValue codec b.responseFormat
  tools : jsonValue codec a.tools = jsonValue codec b.tools

namespace Dialect

def Wire : Dialect → Type
  | openai _ => OpenAI.ChatRequest
  | anthropic _ => Anthropic.WireRequest

def translateRequest : (d : Dialect) → CanonicalRequest → d.Wire
  | openai _ => OpenAI.translateRequest
  | anthropic _ => Anthropic.translateRequest

/-- The dialect sends seed, response_format and tools. -/
def SendsAll : Dialect → Prop
  | openai _ => True
  | anthropic _ => False

end Dialect

theorem AgreesOnKey.of_openai {codec : Exact.Codec} {a b : CanonicalRequest}
    (same : OpenAI.translateRequest a = OpenAI.translateRequest b) : AgreesOnKey codec a b := by
  simp only [OpenAI.translateRequest, OpenAI.ChatRequest.mk.injEq, true_and] at same
  obtain ⟨model, messages, temperature, topP, maxTokens, stop, seed, format, tools, -⟩ := same
  refine ⟨model, ?_, temperature, topP, ?_, stop, seed, ?_, ?_⟩
  · rw [OpenAI.wireMessage_injective.list_map messages]
  · intro m set n set'
    rw [maxTokens] at set
    exact Option.mem_unique set set'
  · rw [format]
  · rw [tools]

/-- The turns of a request are among those the Anthropic request lists. -/
theorem turns_of_translateRequest (req : CanonicalRequest) :
    (Anthropic.translateRequest req).messages.filter (fun m => m.role = "user" ∨ m.role = "assistant") =
      (turns req.messages).map Anthropic.wireMessage := by
  have listed : (Anthropic.translateRequest req).messages =
      (req.messages.filter fun m => m.role ≠ "system").map Anthropic.wireMessage :=
    Anthropic.splitMessages_turns ("", []) req.messages
  rw [listed, List.filter_map, List.filter_filter, turns]
  congr 1
  refine List.filter_congr fun m _ => ?_
  by_cases user : m.role = "user"
  · simp [Anthropic.wireMessage, user]
  · by_cases assistant : m.role = "assistant"
    · simp [Anthropic.wireMessage, assistant]
    · simp [Anthropic.wireMessage, user, assistant]

theorem AgreesOnKey.of_anthropic {codec : Exact.Codec} {a b : CanonicalRequest}
    (same : Anthropic.translateRequest a = Anthropic.translateRequest b)
    (rest : AgreesOnUnsent codec a b) : AgreesOnKey codec a b := by
  have listed : (turns a.messages).map Anthropic.wireMessage =
      (turns b.messages).map Anthropic.wireMessage := by
    rw [← turns_of_translateRequest a, same, turns_of_translateRequest b]
  have filled : a.maxTokens.getD Anthropic.defaultMaxTokens =
      b.maxTokens.getD Anthropic.defaultMaxTokens :=
    congrArg Anthropic.WireRequest.maxTokens same
  refine ⟨congrArg Anthropic.WireRequest.model same, Anthropic.wireMessage_injective.list_map listed,
    congrArg Anthropic.WireRequest.temperature same, congrArg Anthropic.WireRequest.topP same, ?_,
    congrArg Anthropic.WireRequest.stopSequences same, rest.seed, rest.responseFormat, rest.tools⟩
  rintro m set n set'
  rw [Option.mem_def] at set set'
  simpa [set, set'] using filled

/-- Requests sent alike agree on the key's fields exactly when the dialect sends all of them,
or those an Anthropic request lacks agree by themselves. -/
theorem sent_alike_agree_iff (codec : Exact.Codec) (d : Dialect) (a b : CanonicalRequest)
    (same : d.translateRequest a = d.translateRequest b) :
    AgreesOnKey codec a b ↔ d.SendsAll ∨ AgreesOnUnsent codec a b := by
  constructor
  · intro agrees
    exact .inr ⟨agrees.seed, agrees.responseFormat, agrees.tools⟩
  · cases d with
    | openai c => exact fun _ => .of_openai same
    | anthropic c =>
        rintro (sent | rest)
        · exact sent.elim
        · exact .of_anthropic same rest

def greetingFrom (user : String) : CanonicalRequest :=
  { model := "chat", messages := [⟨"system", "be brief"⟩, ⟨"user", "hi"⟩], user }

def greetingWith (seed : Int64) : CanonicalRequest :=
  { model := "chat", messages := [⟨"system", "be brief"⟩, ⟨"user", "hi"⟩], seed := some seed }

/-- A codec that decodes nothing; a request is sent without it. -/
def deaf : Anthropic.Codec where
  unmarshalEvent _ := .error "unexpected end of JSON input"
  unmarshalError _ := .error "unexpected end of JSON input"
  text _ := ""

/-- The end user is sent to OpenAI only, and has no part in the key. -/
theorem other_user_sent_alike :
    (Dialect.anthropic deaf).translateRequest (greetingFrom "ann") =
        (Dialect.anthropic deaf).translateRequest (greetingFrom "bob") ∧
      greetingFrom "ann" ≠ greetingFrom "bob" ∧
      AgreesOnKey sampleCodec (greetingFrom "ann") (greetingFrom "bob") :=
  ⟨rfl, by decide, (sent_alike_agree_iff sampleCodec (.anthropic deaf) (greetingFrom "ann")
    (greetingFrom "bob") rfl).mpr (.inr ⟨rfl, rfl, rfl⟩)⟩

/-- Two seeds make two keys and one Anthropic request. -/
theorem other_seed_sent_alike :
    (Dialect.anthropic deaf).translateRequest (greetingWith 1) =
        (Dialect.anthropic deaf).translateRequest (greetingWith 2) ∧
      canonicalize sampleCodec (greetingWith 1) ≠ canonicalize sampleCodec (greetingWith 2) ∧
      ¬ AgreesOnKey sampleCodec (greetingWith 1) (greetingWith 2) := by
  refine ⟨rfl, by decide +kernel, fun agrees => ?_⟩
  have seed := agrees.seed
  revert seed
  decide

end Gateway.Providers
