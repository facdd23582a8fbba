import InferenceGateway.Providers.Upstream

/-! The Anthropic dialect: the request it sends, and Stream. -/
namespace Gateway.Providers.Anthropic
open Scanner

structure WireMessage where
  role : String
  content : String
  deriving DecidableEq, Repr

def wireMessage (m : Message) : WireMessage := ⟨m.role, m.content⟩

theorem wireMessage_injective : Function.Injective wireMessage := by
  rintro ⟨role, content⟩ ⟨role', content'⟩ alike
  simp only [wireMessage, WireMessage.mk.injEq] at alike
  rw [alike.1, alike.2]

structure WireRequest where
  model : String
  maxTokens : Int64
  system : String
  messages : List WireMessage
  temperature : Option ℚ
  topP : Option ℚ
  stopSequences : List String
  stream : Bool := false
  deriving DecidableEq, Repr

def defaultMaxTokens : Int64 := 1024

/-- The loop of translateRequest, over the system text and the turns so far. -/
def splitMessages : String × List WireMessage → List Message → String × List WireMessage
  | acc, [] => acc
  | (system, msgs), m :: rest =>
      if m.role = "system" then
        splitMessages ((if system = "" then system else system ++ "\n") ++ m.content, msgs) rest
      else splitMessages (system, msgs ++ [wireMessage m]) rest

def translateRequest (req : CanonicalRequest) : WireRequest :=
  let (system, msgs) := splitMessages ("", []) req.messages
  { model := req.model
    maxTokens := req.maxTokens.getD defaultMaxTokens
    system
    messages := msgs
    temperature := req.temperature
    topP := req.topP
    stopSequences := req.stop }

/-- System messages leave the turns alone, every other message is one. -/
theorem splitMessages_turns (acc : String × List WireMessage) (messages : List Message) :
    (splitMessages acc messages).2 =
      acc.2 ++ (messages.filter fun m => m.role ≠ "system").map wireMessage := by
  induction messages generalizing acc with
  | nil => simp [splitMessages]
  | cons m rest ih =>
      obtain ⟨system, msgs⟩ := acc
      by_cases pulled : m.role = "system"
      · simp [splitMessages, pulled, ih]
      · simp [splitMessages, pulled, ih]

/-- The fields of streamEvent, named by their path in it. -/
structure StreamEvent where
  type : String
  messageInputTokens : Int64 := 0
  deltaType : String := ""
  deltaText : String := ""
  deltaStopReason : String := ""
  outputTokens : Int64 := 0
  deriving DecidableEq

/-- json.Unmarshal into the dialect's types, and the text of a Go string. -/
structure Codec where
  unmarshalEvent : Bytes → Except String StreamEvent
  unmarshalError : Bytes → Except String String
  text : Bytes → String

def Codec.errorMessage (c : Codec) (body : Bytes) : String :=
  match c.unmarshalError body with
  | .ok message => if message ≠ "" then message else c.text body
  | .error _ => c.text body

def mapStopReason (sr : String) : String :=
  if sr = "" then ""
  else if sr = "end_turn" ∨ sr = "stop_sequence" then "stop"
  else if sr = "max_tokens" then "length"
  else sr

/-- The switch on the event's type; the state is the local inputTokens. -/
def reactTo (c : Codec) (inputTokens : Int64) (data : Bytes) (ev : StreamEvent) : Reaction × Int64 :=
  if ev.type = "message_start" then (.skip, ev.messageInputTokens)
  else if ev.type = "content_block_delta" then
    if ev.deltaType ≠ "text_delta" then (.skip, inputTokens)
    else (.emit { content := ev.deltaText }, inputTokens)
  else if ev.type = "message_delta" then
    (.emit { finishReason := mapStopReason ev.deltaStopReason
             usage := some ⟨inputTokens, ev.outputTokens, inputTokens + ev.outputTokens⟩ }, inputTokens)
  else if ev.type = "message_stop" then (.finish, inputTokens)
  else if ev.type = "error" then
    (.fail (.api { statusCode := 502, message := c.text data }), inputTokens)
  else (.skip, inputTokens)

/-- The body of the loop in Stream. -/
def react (c : Codec) (inputTokens : Int64) (line : Bytes) : Reaction × Int64 :=
  match cutPrefix (utf8 "data: ") line with
  | none => (.skip, inputTokens)
  | some data =>
      if data = [] then (.skip, inputTokens)
      else
        match c.unmarshalEvent data with
        | .error err => (.fail (.other ("anthropic: decode stream event: " ++ err)), inputTokens)
        | .ok ev => reactTo c inputTokens data ev

/-- Stream, from the answer of its request on. -/
def stream (c : Codec) : Except CallError Upstream → StreamM (Option CallError)
  | .error err => pure (some err)
  | .ok u =>
      if 400 ≤ u.status then
        pure (some (.api { statusCode := u.status, message := c.errorMessage u.body,
                           retryAfter := u.retryAfter }))
      else
        readLines (react c) (u.scan.err.map fun err => .other ("anthropic: read stream: " ++ err)) 0
          u.scan.lines

end Gateway.Providers.Anthropic
