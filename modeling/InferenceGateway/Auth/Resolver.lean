import InferenceGateway.Interaction.Program
import InferenceGateway.Providers.Types

/-! Virtual keys: the identity behind a key, the resolver that reads it through a cache,
and the admin handler that revokes a key and drops its cache entry. -/
namespace Gateway.Auth
open Gateway.Providers (Duration)
open Interaction

/-- Ids are the text of their UUIDs. -/
structure Identity where
  orgID : String
  teamID : String
  keyID : String
  allowedModels : List String := []
  orgTPMLimit : Int64
  teamTPMLimit : Int64
  keyTPMLimit : Option Int64 := none
  deriving DecidableEq

abbrev Hash := List UInt8

inductive AuthError where
  | notFound
  | revoked
  | other (message : String)
  deriving DecidableEq

def AuthError.error : AuthError → String
  | .notFound => "auth: key not found"
  | .revoked => "auth: key revoked"
  | .other message => message

def hexDigit (n : Nat) : Char := if n < 10 then Char.ofNat (48 + n) else Char.ofNat (87 + n)

/-- hex.EncodeToString. -/
def hexEncode (bytes : Hash) : String :=
  String.ofList (bytes.flatMap fun b => [hexDigit (b.toNat / 16), hexDigit (b.toNat % 16)])

def cacheKey (hash : Hash) : String := "vk:" ++ hexEncode hash

structure CachedEntry where
  identity : Identity
  revoked : Bool
  deriving DecidableEq

/-- CachingResolver with the pure functions it calls: the hash of a key, the JSON form of
an entry and how it is read back. -/
structure CachingResolver where
  hashKey : String → Hash
  marshal : CachedEntry → String
  unmarshal : String → Option CachedEntry
  ttl : Duration

inductive Op where
  | get (key : String)
  | set (key value : String) (ttl : Duration)
  | del (key : String)
  | resolve (hash : Hash)
  | revokeKey (id : String)

/-- A miss of the cache is an error of Get, as in the code. -/
@[reducible] def Op.Reply : Op → Type
  | .get _ => Except String String
  | .set _ _ _ | .del _ => Option String
  | .resolve _ => Except AuthError (Identity × Bool)
  | .revokeKey _ => Except AuthError Hash

abbrev AuthM := Program Op Op.Reply

abbrev perform (o : Op) : AuthM o.Reply := Program.perform o

def verdict (id : Identity) (revoked : Bool) : Except AuthError Identity :=
  if revoked then .error .revoked else .ok id

/-- Resolve after a miss or a corrupt entry. -/
def CachingResolver.resolveFromStore (c : CachingResolver) (hash : Hash) :
    AuthM (Except AuthError Identity) := do
  let found : Except AuthError (Identity × Bool) ← perform (.resolve hash)
  match found with
  | .error err => pure (.error err)
  | .ok (id, revoked) => do
      let _ ← perform (.set (cacheKey hash) (c.marshal ⟨id, revoked⟩) c.ttl)
      pure (verdict id revoked)

def CachingResolver.resolve (c : CachingResolver) (plaintextKey : String) :
    AuthM (Except AuthError Identity) := do
  let hash := c.hashKey plaintextKey
  let raw : Except String String ← perform (.get (cacheKey hash))
  match raw with
  | .error _ => c.resolveFromStore hash
  | .ok raw =>
      match c.unmarshal raw with
      | some entry => pure (verdict entry.identity entry.revoked)
      | none => c.resolveFromStore hash

/-- The status and the JSON error message of an admin response. -/
structure Answer where
  status : Int
  message : Option String := none
  deriving DecidableEq

/-- handleRevokeKey; `parse` is uuid.Parse. -/
def handleRevokeKey (parse : String → Option String) (pathID : String) : AuthM Answer :=
  match parse pathID with
  | none => pure ⟨400, some "id must be a valid UUID"⟩
  | some id => do
      let revoked : Except AuthError Hash ← perform (.revokeKey id)
      match revoked with
      | .error .notFound => pure ⟨404, some "key not found or already revoked"⟩
      | .error err => pure ⟨500, some err.error⟩
      | .ok hash => do
          let _ ← perform (.del (cacheKey hash))
          pure ⟨204, none⟩

theorem hexDigit_inj {m n : Nat} (hm : m < 16) (hn : n < 16) (h : hexDigit m = hexDigit n) : m = n := by
  have all : ∀ m : Fin 16, ∀ n : Fin 16, hexDigit m = hexDigit n → m = n := by decide
  exact Fin.mk.inj (all ⟨m, hm⟩ ⟨n, hn⟩ h)

theorem hexEncode_inj {a b : Hash} (h : hexEncode a = hexEncode b) : a = b := by
  have chars := congrArg String.toList h
  simp only [hexEncode, String.toList_ofList] at chars
  clear h
  induction a generalizing b with
  | nil =>
      cases b with
      | nil => rfl
      | cons y b => simp at chars
  | cons x a ih =>
      cases b with
      | nil => simp at chars
      | cons y b =>
          simp only [List.flatMap_cons, List.cons_append, List.nil_append, List.cons.injEq] at chars
          obtain ⟨high, low, rest⟩ := chars
          have hx := x.toNat_lt
          have hy := y.toNat_lt
          have highs := hexDigit_inj (by omega) (by omega) high
          have lows := hexDigit_inj (by omega) (by omega) low
          have same : x = y := UInt8.toNat_inj.mp (by omega)
          rw [same, ih rest]

theorem cacheKey_inj {a b : Hash} (h : cacheKey a = cacheKey b) : a = b := by
  apply hexEncode_inj
  have chars := congrArg String.toList h
  rw [cacheKey, cacheKey, String.toList_append, String.toList_append] at chars
  exact String.toList_injective (List.append_cancel_left chars)

end Gateway.Auth
