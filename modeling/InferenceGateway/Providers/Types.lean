import Mathlib

/-! The canonical request and response shapes of package providers, its failure
taxonomy, and the error values a provider call can hand back to the engine. -/
namespace Gateway.Providers

/-- A time.Duration in nanoseconds, with the wrap-around of its machine type. -/
abbrev Duration := Int64

structure Message where
  role : String
  content : String
  deriving DecidableEq, Repr

/-- An absent json.RawMessage is the empty text. Optional floats are finite and
therefore rational. -/
structure CanonicalRequest where
  model : String
  messages : List Message
  temperature : Option ℚ := none
  topP : Option ℚ := none
  maxTokens : Option Int64 := none
  stop : List String := []
  seed : Option Int64 := none
  responseFormat : String := ""
  tools : String := ""
  stream : Bool := false
  user : String := ""
  cacheTTL : String := ""
  deriving DecidableEq, Repr

structure Choice where
  index : Int
  message : Message
  finishReason : String
  deriving DecidableEq, Repr

structure Usage where
  promptTokens : Int64
  completionTokens : Int64
  totalTokens : Int64
  deriving DecidableEq, Repr

structure CanonicalResponse where
  id : String
  object : String
  created : Int
  model : String
  choices : List Choice
  usage : Usage
  deriving DecidableEq, Repr

structure Delta where
  content : String := ""
  finishReason : String := ""
  usage : Option Usage := none
  deriving DecidableEq, Repr

inductive FailureClass where
  | terminal
  | retryable
  | fallback
  deriving DecidableEq, Repr

structure APIError where
  statusCode : Int
  message : String
  retryAfter : Duration := 0
  deriving DecidableEq, Repr

inductive CtxError where
  | canceled
  | deadlineExceeded
  deriving DecidableEq, Repr

def CtxError.error : CtxError → String
  | .canceled => "context canceled"
  | .deadlineExceeded => "context deadline exceeded"

/-- What Complete, Stream or the delta callback may return. The engine's own two
sentinels are private to it or never produced by a provider, so they are not here. -/
inductive CallError where
  | api (e : APIError)
  | ctx (e : CtxError)
  | other (message : String)
  deriving DecidableEq, Repr

def APIError.error (e : APIError) : String :=
  "provider error (status " ++ toString e.statusCode ++ "): " ++ e.message

def CallError.error : CallError → String
  | .api e => e.error
  | .ctx e => e.error
  | .other message => message

/-- errors.As against APIError. -/
def CallError.asAPIError : CallError → Option APIError
  | .api e => some e
  | .ctx _ | .other _ => none

/-- The status the engine attributes to a failed call: zero without an APIError. -/
def CallError.status (e : CallError) : Int :=
  match e.asAPIError with
  | some a => a.statusCode
  | none => 0

def classifyByStatus (status : Int) : FailureClass :=
  if status = 429 ∨ 500 ≤ status then .retryable
  else if status = 400 ∨ status = 401 ∨ status = 403 ∨ status = 404 then .fallback
  else .terminal

/-- What the engine and the prober use of a provider beyond issuing calls to it. Prices
are dollars per million tokens; `healthChecker` says whether it implements HealthChecker. -/
structure Provider where
  classify : CallError → Int → FailureClass
  pricing : String → ℚ × ℚ
  healthChecker : Bool

/-- Classify as the openai, anthropic and mock providers all implement it. -/
def Provider.ClassifiesByStatus (p : Provider) : Prop :=
  ∀ err status, p.classify err status = classifyByStatus status

/-- A failure without an HTTP status takes the default branch of the table. -/
theorem classifyByStatus_statusless {err : CallError} (h : err.asAPIError = none) :
    classifyByStatus err.status = .terminal := by
  simp only [CallError.status, h]
  decide

end Gateway.Providers
