import InferenceGateway.Auth.Resolver
import InferenceGateway.Cache.Semantic
import InferenceGateway.Config.Config
import InferenceGateway.Http.Response
import InferenceGateway.Interaction.Handler
import InferenceGateway.Json.Encode
import InferenceGateway.Ledger.Writer
import InferenceGateway.RateLimit.Scripts
import InferenceGateway.Retry.Engine

/-! What the chat handlers of package server are built from: their dependencies, the
operations they ask of them, and the writers of the response formats they share. -/
namespace Gateway.Tokenizer
open Gateway.Providers

structure Counter where
  encode : String → List Nat

def perMessageOverhead : Int64 := 4
def replyPrimingTokens : Int64 := 2

def Counter.countText (c : Counter) (text : String) : Int64 := Int64.ofNat (c.encode text).length

def Counter.countMessages (c : Counter) (messages : List Message) : Int64 :=
  messages.foldl (fun total m => total + (perMessageOverhead + c.countText m.content))
    replyPrimingTokens

end Gateway.Tokenizer

namespace Gateway.Server
open Gateway.Providers Gateway.Retry Interaction
open Gateway.Semantic (Query)
open Gateway.Embedding (Vector)

/-- The pure functions the handlers take from other packages, errors included where the
handlers look at them: exact.Canonicalize and CanonicalizeJSON, the hex digest in exact.Key,
time.ParseDuration, Duration.String and the printable test behind the verb for quoting. -/
structure Library where
  canonicalize : CanonicalRequest → Option String
  canonicalizeJSON : String → Option String
  sha256Hex : String → String
  parseDuration : String → Except String Duration
  durationString : Duration → String
  isPrint : Char → Bool

/-- chatDeps. A dependency that is only called is present or nil; its methods are
operations. -/
structure ChatDeps where
  resolve : String → Except String (List Tier)
  engine : Engine
  counter : Tokenizer.Counter
  defaultTPM : Int64
  estimateCompletionTokens : Int64
  cache : Bool
  cacheNonzeroTemperature : Bool
  cacheMaxClientTTL : Duration
  embedder : Bool
  semanticCache : Bool
  ledger : Bool
  lib : Library

/-- One request as it reaches the handler: the decoded body or the decoder's error, what
the context carries, and whether the response writer implements http.Flusher. -/
structure Request where
  body : Except String CanonicalRequest
  identity : Option Auth.Identity
  requestID : String
  canFlush : Bool

/-- `countFailure` is the increment of gateway_requests_total for a request that got no
response; no other metric is here. -/
inductive Op where
  | engine (o : Retry.Op)
  | reserve (scopes : RateLimit.Scopes) (cost : Int64)
  | adjust (scopes : RateLimit.Scopes) (delta : Int64)
  | cacheGet (key : String)
  | cacheSet (key : String) (resp : CanonicalResponse) (ttlOverride : Option Duration)
  | embed (text : String)
  | semanticGet (q : Query)
  | semanticSet (q : Query) (resp : CanonicalResponse) (ttlOverride : Option Duration)
  | record (entry : Ledger.Entry)
  | countFailure (status : Int) (lastProvider : String)
  | http (call : Http.Call)
  | now
  | newRequestID

/-- A cache lookup may fail, miss or hit; `now` is in nanoseconds since the epoch. -/
@[reducible] def Op.Reply : Op → Type
  | .engine o => o.Reply
  | .reserve _ _ => Except String RateLimit.Decision
  | .adjust _ _ => Option String
  | .cacheGet _ => Except String (Option CanonicalResponse)
  | .cacheSet _ _ _ => Option String
  | .embed _ => Except String Vector
  | .semanticGet _ => Option CanonicalResponse
  | .semanticSet _ _ _ | .record _ | .countFailure _ _ => Unit
  | .http call => call.Reply
  | .now => Int64
  | .newRequestID => String

abbrev ServerM := Program Op Op.Reply
abbrev Trace := List (Event Op Op.Reply)

abbrev perform (o : Op) : ServerM o.Reply := Program.perform o

def setHeader (name value : String) : ServerM Unit := perform (.http (.setHeader name value))
def writeHeader (status : Int) : ServerM Unit := perform (.http (.writeHeader status))
def write (text : String) : ServerM (Option String) := perform (.http (.write text))
def flush : ServerM Unit := perform (.http .flush)

/-- How a handler ends. A nil dereference is a panic; the last case is the model's own. -/
inductive Ended where
  | returned
  | panicked
  | outOfFuel
  deriving DecidableEq

open Json in
def errorPayload (message requestID : String) : Value :=
  .obj [("error", .obj [("message", .str message), ("request_id", .str requestID)])]

/-- What json.Encoder writes: the compact text and a line break. -/
def encodeLine (v : Json.Value) : String := v.text ++ "\n"

def writeJSONError (r : Request) (status : Int) (message : String) : ServerM Unit := do
  setHeader "Content-Type" "application/json"
  writeHeader status
  let _ ← write (encodeLine (errorPayload message r.requestID))

def flushIf (canFlush : Bool) : ServerM Unit := if canFlush then flush else pure ()

def writeEventName (event : String) : ServerM (Option String) :=
  if event ≠ "" then write ("event: " ++ event ++ "\n") else pure none

/-- One SSE frame with an optional event name; the error is that of the failing write. -/
def writeSSEEvent (event : String) (data : Json.Value) : ServerM (Option String) := do
  let named ← writeEventName event
  match named with
  | some err => pure (some err)
  | none => write ("data: " ++ data.text ++ "\n\n")

def writeSSEDone : ServerM (Option String) := write "data: [DONE]\n\n"

open Json in
def usageJSON (u : Usage) : Value :=
  .obj [("prompt_tokens", .int u.promptTokens.toInt),
    ("completion_tokens", .int u.completionTokens.toInt), ("total_tokens", .int u.totalTokens.toInt)]

open Json in
def responseJSON (resp : CanonicalResponse) : Value :=
  .obj [("id", .str resp.id), ("object", .str resp.object), ("created", .int resp.created),
    ("model", .str resp.model),
    ("choices", .arr (resp.choices.map fun c =>
      .obj [("index", .int c.index),
        ("message", .obj [("role", .str c.message.role), ("content", .str c.message.content)]),
        ("finish_reason", .str c.finishReason)])),
    ("usage", usageJSON resp.usage)]

open Json in
/-- chatCompletionChunk with its one choice; empty role and content are omitted, an empty
finish reason is null, and the chunk's own usage is always absent. -/
def chunkJSON (id : String) (created : Int) (model role content : String)
    (finishReason : Option String) : Value :=
  let member (name s : String) : List (String × Value) := if s = "" then [] else [(name, .str s)]
  .obj [("id", .str id), ("object", .str "chat.completion.chunk"), ("created", .int created),
    ("model", .str model),
    ("choices", .arr [.obj [("index", .int 0),
      ("delta", .obj (member "role" role ++ member "content" content)),
      ("finish_reason", (finishReason.map .str).getD .null)]])]

def nilIfEmpty (s : String) : Option String := if s = "" then none else some s

end Gateway.Server
