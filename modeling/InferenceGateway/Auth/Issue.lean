import InferenceGateway.Auth.Store
import InferenceGateway.Interaction.Serving

/-! Issuing a virtual key and presenting it: the plaintext that is handed out, the admin
handler that stores its hash, and the middleware that takes the key out of a request. -/
namespace Gateway.Auth
open Interaction

/-- The alphabet of base64.RawURLEncoding. -/
def base64Digit (n : Nat) : Char :=
  if n < 26 then Char.ofNat (65 + n)
  else if n < 52 then Char.ofNat (71 + n)
  else if n < 62 then Char.ofNat (n - 4)
  else if n = 62 then '-'
  else '_'

/-- EncodeToString without padding, three bytes to four digits. -/
def base64Encode : List UInt8 → List Char
  | a :: b :: c :: rest =>
      let v := a.toNat * 65536 + b.toNat * 256 + c.toNat
      [base64Digit (v / 262144), base64Digit (v / 4096 % 64), base64Digit (v / 64 % 64),
        base64Digit (v % 64)] ++ base64Encode rest
  | [a, b] =>
      let v := a.toNat * 256 + b.toNat
      [base64Digit (v / 1024), base64Digit (v / 16 % 64), base64Digit (v % 16 * 4)]
  | [a] => [base64Digit (a.toNat / 4), base64Digit (a.toNat % 4 * 16)]
  | [] => []

def keyPrefixLabel : String := "sk-vk-"

/-- The columns an INSERT of a key gives. -/
structure NewKey where
  teamID : String
  hash : Hash
  keyPrefix : String
  label : String
  allowedModels : List String
  tpmLimit : Option Int64
  deriving DecidableEq

/-- The operations of the resolver and the revoke handler, and those of issuing. -/
inductive KeyOp where
  | auth (op : Op)
  | randRead (n : Nat)
  | insertKey (key : NewKey)

/-- rand.Read fills its slice or fails; the INSERT returns id and created_at. -/
@[reducible] def KeyOp.Reply : KeyOp → Type
  | .auth op => op.Reply
  | .randRead n => Except String { raw : List UInt8 // raw.length = n }
  | .insertKey _ => Except String (String × Int)

abbrev KeyM := Program KeyOp KeyOp.Reply

abbrev performKey (o : KeyOp) : KeyM o.Reply := Program.perform o

/-- The resolver's and the revoke handler's programs, among all key operations. -/
def overKeys {α : Type} (p : AuthM α) : KeyM α := p.lift KeyOp.auth fun _ => Equiv.refl _

def generateKey : KeyM (Except String String) := do
  let raw : Except String { raw : List UInt8 // raw.length = 24 } ← performKey (.randRead 24)
  match raw with
  | .error err => pure (.error ("auth: generate key: " ++ err))
  | .ok raw => pure (.ok (keyPrefixLabel ++ String.ofList (base64Encode raw.1)))

/-- A generated key has one byte to a character. -/
def displayPrefix (plaintext : String) : String := String.ofList (plaintext.toList.take 8)

/-- auth.Key as IssueKey fills it. -/
structure Key where
  id : String
  teamID : String
  keyPrefix : String
  label : String
  allowedModels : List String
  tpmLimit : Option Int64
  createdAt : Int
  deriving DecidableEq

def issueKey (hashKey : String → Hash) (teamID label : String) (allowedModels : List String)
    (tpmLimit : Option Int64) : KeyM (Except String (String × Key)) := do
  let generated ← generateKey
  match generated with
  | .error err => pure (.error err)
  | .ok plaintext => do
      let hash := hashKey plaintext
      let keyPrefix := displayPrefix plaintext
      let row : Except String (String × Int) ←
        performKey (.insertKey { teamID, hash, keyPrefix, label, allowedModels, tpmLimit })
      match row with
      | .error err => pure (.error ("auth: issue key: " ++ err))
      | .ok (id, createdAt) =>
          pure (.ok (plaintext, { id, teamID, keyPrefix, label, allowedModels, tpmLimit, createdAt }))

structure IssueKeyRequest where
  teamID : String
  label : String
  allowedModels : List String
  tpmLimit : Option Int64
  deriving DecidableEq

structure IssueKeyResponse where
  id : String
  key : String
  keyPrefix : String
  createdAt : Int
  deriving DecidableEq

/-- An error with its status, or 201 with the key. -/
inductive IssueAnswer where
  | refused (status : Int) (message : String)
  | created (response : IssueKeyResponse)
  deriving DecidableEq

/-- handleIssueKey on the decoded body or the decoder's error; `parse` is uuid.Parse. -/
def handleIssueKey (hashKey : String → Hash) (parse : String → Option String)
    (body : Except String IssueKeyRequest) : KeyM IssueAnswer :=
  match body with
  | .error err => pure (.refused 400 ("invalid JSON body: " ++ err))
  | .ok req =>
      match parse req.teamID with
      | none => pure (.refused 400 "team_id must be a valid UUID")
      | some teamID => do
          let issued ← issueKey hashKey teamID req.label req.allowedModels req.tpmLimit
          match issued with
          | .error err => pure (.refused 500 err)
          | .ok (plaintext, key) =>
              pure (.created { id := key.id, key := plaintext, keyPrefix := key.keyPrefix
                               createdAt := key.createdAt })

def bearerScheme : String := "Bearer "

/-- The Authorization header without the scheme, if anything follows it. -/
def bearerToken (header : String) : Option String :=
  if bearerScheme.toList <+: header.toList ∧ bearerScheme.length < header.length then
    some (String.ofList (header.toList.drop bearerScheme.length))
  else none

/-- What Resolve says about the key of a request; none if it carries no key. -/
def resolveBearer (c : CachingResolver) (header : String) :
    AuthM (Option (Except AuthError Identity)) :=
  match bearerToken header with
  | none => pure none
  | some token => do
      let result ← c.resolve token
      pure (some result)

/-- A request is handed on with its identity, or answered with an error. -/
inductive Gate where
  | admitted (id : Identity)
  | rejected (status : Int) (message : String)
  deriving DecidableEq

def gate : Option (Except AuthError Identity) → Gate
  | none => .rejected 401 "missing or malformed Authorization header"
  | some (.ok id) => .admitted id
  | some (.error .notFound) | some (.error .revoked) => .rejected 401 "invalid or revoked API key"
  | some (.error (.other _)) => .rejected 500 "invalid or revoked API key"

def withBearerAuth (c : CachingResolver) (header : String) : AuthM Gate := do
  let result ← resolveBearer c header
  pure (gate result)

/-- A key sent under the Bearer scheme is read back as it was sent. -/
theorem bearerToken_scheme {key : String} (nonempty : key ≠ "") :
    bearerToken (bearerScheme ++ key) = some key := by
  have longer : 0 < key.length := by
    rw [Nat.pos_iff_ne_zero]
    intro zero
    exact nonempty (String.length_eq_zero_iff.mp zero)
  have held : bearerScheme.toList <+: (bearerScheme ++ key).toList ∧
      bearerScheme.length < (bearerScheme ++ key).length := by
    rw [String.toList_append, String.length_append]
    exact ⟨List.prefix_append _ _, by omega⟩
  rw [bearerToken, if_pos held, String.toList_append, ← String.length_toList, List.drop_left,
    String.ofList_toList]

theorem gate_admitted {result : Option (Except AuthError Identity)} {id : Identity} :
    gate result = .admitted id ↔ result = some (.ok id) := by
  rcases result with - | err | own
  · simp [gate]
  · cases err <;> simp [gate]
  · simp [gate]

end Gateway.Auth
