import InferenceGateway.Json.Parse
import InferenceGateway.Redis.Strings
import InferenceGateway.Server.Ops

/-! The exact cache's store: responses as JSON texts in Redis, with a TTL each. -/
namespace Gateway.Exact
open Gateway.Providers
open Gateway.RateLimit (Fate)
open Gateway.Redis (Strings)
open Gateway.Server (responseJSON usageJSON)
open Json (Value)

def decodeMessage (v : Value) : Option Message := do
  let role ← v.field "role" "" Value.string
  let content ← v.field "content" "" Value.string
  some ⟨role, content⟩

def decodeChoice (v : Value) : Option Choice := do
  let index ← v.field "index" 0 Value.integer
  let message ← v.field "message" ⟨"", ""⟩ decodeMessage
  let finishReason ← v.field "finish_reason" "" Value.string
  some ⟨index, message, finishReason⟩

def decodeUsage (v : Value) : Option Usage := do
  let promptTokens ← v.field "prompt_tokens" 0 Value.int64
  let completionTokens ← v.field "completion_tokens" 0 Value.int64
  let totalTokens ← v.field "total_tokens" 0 Value.int64
  some ⟨promptTokens, completionTokens, totalTokens⟩

/-- json.Unmarshal into a CanonicalResponse. -/
def decodeResponse (v : Value) : Option CanonicalResponse := do
  let id ← v.field "id" "" Value.string
  let object ← v.field "object" "" Value.string
  let created ← v.field "created" 0 Value.integer
  let model ← v.field "model" "" Value.string
  let choices ← v.field "choices" [] (Value.list decodeChoice)
  let usage ← v.field "usage" ⟨0, 0, 0⟩ decodeUsage
  some { id, object, created, model, choices, usage }

def marshalResponse (resp : CanonicalResponse) : String := (responseJSON resp).text

def unmarshalResponse (raw : String) : Option CanonicalResponse := (Json.parse raw).bind decodeResponse

theorem decodeUsage_usageJSON (usage : Usage) : decodeUsage (usageJSON usage) = some usage := by
  simp [decodeUsage, usageJSON]

theorem decodeChoice_json (c : Choice) :
    decodeChoice (.obj [("index", .int c.index),
      ("message", .obj [("role", .str c.message.role), ("content", .str c.message.content)]),
      ("finish_reason", .str c.finishReason)]) = some c := by
  simp [decodeChoice, decodeMessage, Value.integer, Value.string]

/-- A response comes out of the cache as it went in. -/
theorem unmarshal_marshalResponse (resp : CanonicalResponse) :
    unmarshalResponse (marshalResponse resp) = some resp := by
  have choices := Value.list_map decodeChoice _ decodeChoice_json resp.choices
  have present : usageJSON resp.usage ≠ .null := nofun
  rw [unmarshalResponse, marshalResponse, Json.parse_text, Option.bind_some]
  simp [decodeResponse, responseJSON, Value.integer, Value.string, choices, present,
    decodeUsage_usageJSON]

structure Store where
  ttl : Duration

/-- Get. Of the decoder's error only the fact is modelled. -/
def Store.get (_ : Store) (fate : Fate) (strings : Strings) (now : Int) (key : String) :
    Except String (Option CanonicalResponse) :=
  match fate.err, strings.live now key with
  | some err, _ => .error ("exact: get: " ++ err)
  | none, none => .ok none
  | none, some raw =>
      match unmarshalResponse raw with
      | some resp => .ok (some resp)
      | none => .error "exact: decode cached response"

/-- How long a response is kept. -/
def Store.lifetime (s : Store) (ttlOverride : Option Duration) : Duration := ttlOverride.getD s.ttl

def Store.set (s : Store) (fate : Fate) (strings : Strings) (now : Int) (key : String)
    (resp : CanonicalResponse) (ttlOverride : Option Duration) : Option String × Strings :=
  (fate.err.map ("exact: set: " ++ ·),
    strings.set fate now key (marshalResponse resp) (s.lifetime ttlOverride))

theorem Store.get_hit {s : Store} {fate : Fate} {strings : Strings} {now : Int} {key : String}
    {cached : CanonicalResponse} (h : s.get fate strings now key = .ok (some cached)) :
    ∃ raw, strings.live now key = some raw ∧ unmarshalResponse raw = some cached := by
  unfold Store.get at h
  split at h
  · cases h
  · cases h
  · rename_i raw _ live
    split at h
    · rename_i resp decoded
      cases h
      exact ⟨raw, live, decoded⟩
    · cases h

end Gateway.Exact
