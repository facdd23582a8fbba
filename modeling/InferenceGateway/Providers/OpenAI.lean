import InferenceGateway.Providers.Upstream

/-! The OpenAI dialect: the request it sends, and Stream. -/
namespace Gateway.Providers.OpenAI
open Scanner

structure WireMessage where
  role : String
  content : String
  deriving DecidableEq, Repr

def wireMessage (m : Message) : WireMessage := ⟨m.role, m.content⟩

theorem wireMessage_injective : Function.Injective wireMessage := by
  rintro ⟨role, content⟩ ⟨role', content'⟩ alike
  simp only [wireMessage, WireMessage.mk.injEq] at alike
  rw [alike.1, alike.2]

/-- Optional fields are pointers in the source; an empty text or list is left out. -/
structure ChatRequest where
  model : String
  messages : List WireMessage
  temperature : Option ℚ
  topP : Option ℚ
  maxTokens : Option Int64
  stop : List String
  seed : Option Int64
  responseFormat : String
  tools : String
  stream : Bool := false
  user : String
  deriving DecidableEq, Repr

def translateRequest (req : CanonicalRequest) : ChatRequest where
  model := req.model
  messages := req.messages.map wireMessage
  temperature := req.temperature
  topP := req.topP
  maxTokens := req.maxTokens
  stop := req.stop
  seed := req.seed
  responseFormat := req.responseFormat
  tools := req.tools
  user := req.user

/-- One element of streamChunk.Choices. -/
structure ChunkChoice where
  content : String
  finishReason : String
  deriving DecidableEq

structure StreamChunk where
  choices : List ChunkChoice
  deriving DecidableEq

/-- json.Unmarshal into the dialect's types, the text of a Go string, and which payloads
report an error instead of a part of the completion; Stream never asks for the last. -/
structure Codec where
  unmarshalChunk : Bytes → Except String StreamChunk
  unmarshalError : Bytes → Except String String
  text : Bytes → String
  carriesError : Bytes → Bool

def Codec.errorMessage (c : Codec) (body : Bytes) : String :=
  match c.unmarshalError body with
  | .ok message => if message ≠ "" then message else c.text body
  | .error _ => c.text body

/-- The body of the loop in Stream. -/
def react (c : Codec) (_ : Unit) (line : Bytes) : Reaction × Unit :=
  match cutPrefix (utf8 "data: ") line with
  | none => (.skip, ())
  | some data =>
      if data = [] then (.skip, ())
      else if data = utf8 "[DONE]" then (.finish, ())
      else
        match c.unmarshalChunk data with
        | .error err => (.fail (.other ("openai: decode stream chunk: " ++ err)), ())
        | .ok chunk =>
            match chunk.choices with
            | [] => (.skip, ())
            | choice :: _ =>
                (.emit { content := choice.content, finishReason := choice.finishReason }, ())

/-- Stream, from the answer of its request on. -/
def stream (c : Codec) : Except CallError Upstream → StreamM (Option CallError)
  | .error err => pure (some err)
  | .ok u =>
      if 400 ≤ u.status then
        pure (some (.api { statusCode := u.status, message := c.errorMessage u.body,
                           retryAfter := u.retryAfter }))
      else
        readLines (react c) (u.scan.err.map fun err => .other ("openai: read stream: " ++ err)) ()
          u.scan.lines

end Gateway.Providers.OpenAI
