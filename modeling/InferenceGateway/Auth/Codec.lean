import InferenceGateway.Auth.Resolver
import InferenceGateway.Json.Parse

/-! The JSON form in which identities are cached. -/
namespace Gateway.Auth
open Json (Value)

def limitJSON : Option Int64 → Value
  | none => .null
  | some limit => .int limit.toInt

/-- cachedEntry: the fields of the embedded Identity under their Go names, and `revoked`. -/
def CachedEntry.json (e : CachedEntry) : Value :=
  .obj [("OrgID", .str e.identity.orgID), ("TeamID", .str e.identity.teamID),
    ("KeyID", .str e.identity.keyID), ("AllowedModels", .arr (e.identity.allowedModels.map .str)),
    ("OrgTPMLimit", .int e.identity.orgTPMLimit.toInt),
    ("TeamTPMLimit", .int e.identity.teamTPMLimit.toInt),
    ("KeyTPMLimit", limitJSON e.identity.keyTPMLimit), ("revoked", .bool e.revoked)]

def decodeEntry (v : Value) : Option CachedEntry := do
  let orgID ← v.field "OrgID" "" Value.string
  let teamID ← v.field "TeamID" "" Value.string
  let keyID ← v.field "KeyID" "" Value.string
  let allowedModels ← v.field "AllowedModels" [] (Value.list Value.string)
  let orgTPMLimit ← v.field "OrgTPMLimit" 0 Value.int64
  let teamTPMLimit ← v.field "TeamTPMLimit" 0 Value.int64
  let keyTPMLimit ← v.field "KeyTPMLimit" none fun limit => limit.int64.map some
  let revoked ← v.field "revoked" false Value.boolean
  some ⟨{ orgID, teamID, keyID, allowedModels, orgTPMLimit, teamTPMLimit, keyTPMLimit }, revoked⟩

def marshalEntry (e : CachedEntry) : String := e.json.text

def unmarshalEntry (raw : String) : Option CachedEntry := (Json.parse raw).bind decodeEntry

theorem list_strings (texts : List String) :
    Value.list Value.string (.arr (texts.map .str)) = some texts :=
  Value.list_map Value.string Value.str (fun _ => rfl) texts

/-- An identity comes out of the cache as it went in. -/
theorem unmarshal_marshalEntry (e : CachedEntry) : unmarshalEntry (marshalEntry e) = some e := by
  obtain ⟨⟨orgID, teamID, keyID, models, orgLimit, teamLimit, keyLimit⟩, revoked⟩ := e
  rw [unmarshalEntry, marshalEntry, Json.parse_text, Option.bind_some]
  cases keyLimit <;>
    simp [decodeEntry, CachedEntry.json, limitJSON, Value.string, Value.boolean, list_strings,
      Value.int64_toInt]

end Gateway.Auth
