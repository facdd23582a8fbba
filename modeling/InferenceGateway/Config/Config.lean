import InferenceGateway.Breaker.Breaker
import InferenceGateway.Retry.Backoff

/-! Validation of the gateway's configuration: every section's checks with their
messages, and the parts handed to the breaker registry and the engine. -/
namespace Gateway.Config
open Gateway.Providers (Duration)
open Binary64 (Value)

/-- One check of a validate method. -/
def reject (bad : Prop) [Decidable bad] (message : String) : List String :=
  if bad then [message] else []

theorem reject_eq_nil {bad : Prop} [Decidable bad] {message : String} :
    reject bad message = [] ↔ ¬ bad := by
  unfold reject
  split <;> simp_all

def hex (width n : Nat) : String :=
  let digits := Nat.toDigits 16 n
  String.ofList (List.replicate (width - digits.length) '0' ++ digits)

/-- One rune of strconv.Quote; `isPrint` is strconv.IsPrint. -/
def quoteRune (isPrint : Char → Bool) (c : Char) : String :=
  if c.toNat = 34 then "\\\""
  else if c.toNat = 92 then "\\\\"
  else if isPrint c then String.ofList [c]
  else
    match c.toNat with
    | 7 => "\\a"
    | 8 => "\\b"
    | 9 => "\\t"
    | 10 => "\\n"
    | 11 => "\\v"
    | 12 => "\\f"
    | 13 => "\\r"
    | n =>
        if n < 32 ∨ n = 127 then "\\x" ++ hex 2 n
        else if n < 65536 then "\\u" ++ hex 4 n
        else "\\U" ++ hex 8 n

/-- The verb q of package fmt. -/
def quote (isPrint : Char → Bool) (s : String) : String :=
  "\"" ++ String.join (s.toList.map (quoteRune isPrint)) ++ "\""

structure ServerConfig where
  addr : String
  readTimeout : Duration
  requestTimeout : Duration
  maxBodyBytes : Int64
  shutdownTimeout : Duration

def ServerConfig.validate (c : ServerConfig) : List String :=
  reject (c.addr = "") "server.addr: must not be empty" ++
  reject (c.readTimeout ≤ 0) "server.read_timeout: must be > 0" ++
  reject (c.requestTimeout ≤ 0) "server.request_timeout: must be > 0" ++
  reject (c.maxBodyBytes ≤ 0) "server.max_body_bytes: must be > 0" ++
  reject (c.shutdownTimeout ≤ 0) "server.shutdown_timeout: must be > 0"

structure RedisConfig where
  addr : String
  dialTimeout : Duration

def RedisConfig.validate (c : RedisConfig) : List String :=
  reject (c.addr = "") "redis.addr: must not be empty" ++
  reject (c.dialTimeout ≤ 0) "redis.dial_timeout: must be > 0"

structure PostgresConfig where
  dsnEnv : String
  pingTimeout : Duration

def PostgresConfig.validate (c : PostgresConfig) : List String :=
  reject (c.dsnEnv = "") "postgres.dsn_env: must not be empty" ++
  reject (c.pingTimeout ≤ 0) "postgres.ping_timeout: must be > 0"

def validProviderTypes : List String := ["openai", "anthropic", "mock"]

structure ProviderConfig where
  name : String
  type : String
  baseURL : String
  apiKeyEnv : String
  priority : Int64
  weight : Int64
  timeout : Duration
  failureRate : Value

def ProviderConfig.validate (isPrint : Char → Bool) (c : ProviderConfig) (index : Nat) :
    List String :=
  let field (name text : String) := "providers[" ++ toString index ++ "]." ++ name ++ ": " ++ text
  let upstream := c.type = "openai" ∨ c.type = "anthropic"
  reject (c.name = "") (field "name" "must not be empty") ++
  reject (c.type ∉ validProviderTypes)
    (field "type" (quote isPrint c.type ++ " is not one of openai, anthropic, mock")) ++
  reject (c.priority < 0) (field "priority" "must be >= 0") ++
  reject (c.weight < 0) (field "weight" "must be >= 0") ++
  reject (c.timeout ≤ 0) (field "timeout" "must be > 0") ++
  reject (c.failureRate.lt (.finite 0) ∨ (Value.finite 1).lt c.failureRate)
    (field "failure_rate" "must be between 0 and 1") ++
  reject (upstream ∧ c.baseURL = "")
    (field "base_url" ("must not be empty for type " ++ quote isPrint c.type)) ++
  reject (upstream ∧ c.apiKeyEnv = "")
    (field "api_key_env" ("must not be empty for type " ++ quote isPrint c.type))

structure BreakerConfig where
  errorRateThreshold : Value
  minRequests : Int64
  window : Duration
  cooldown : Duration
  cooldownMax : Duration
  halfOpenProbes : Int64
  proberInterval : Duration

def BreakerConfig.validate (c : BreakerConfig) : List String :=
  reject (c.errorRateThreshold.le (.finite 0) ∨ (Value.finite 1).lt c.errorRateThreshold)
    "breaker.error_rate_threshold: must be in (0, 1]" ++
  reject (c.minRequests < 1) "breaker.min_requests: must be >= 1" ++
  reject (c.window ≤ 0) "breaker.window: must be > 0" ++
  reject (c.cooldown ≤ 0) "breaker.cooldown: must be > 0" ++
  reject (c.cooldownMax < c.cooldown) "breaker.cooldown_max: must be >= breaker.cooldown" ++
  reject (c.halfOpenProbes < 1) "breaker.half_open_probes: must be >= 1" ++
  reject (c.proberInterval ≤ 0) "breaker.prober_interval: must be > 0"

structure RetryConfig where
  maxAttemptsPerProvider : Int64
  baseBackoff : Duration
  maxBackoff : Duration

def RetryConfig.validate (c : RetryConfig) : List String :=
  reject (c.maxAttemptsPerProvider < 1) "retry.max_attempts_per_provider: must be >= 1" ++
  reject (c.baseBackoff ≤ 0) "retry.base_backoff: must be > 0" ++
  reject (c.maxBackoff < c.baseBackoff) "retry.max_backoff: must be >= retry.base_backoff"

structure ExactCacheConfig where
  enabled : Bool
  ttl : Duration

def ExactCacheConfig.validate (c : ExactCacheConfig) : List String :=
  reject (c.enabled ∧ c.ttl ≤ 0) "cache.exact.ttl: must be > 0 when cache.exact.enabled is true"

structure HNSWConfig where
  m : Int64
  efSearch : Int64

structure SemanticCacheConfig where
  enabled : Bool
  threshold : Value
  hnsw : HNSWConfig
  maxVectors : Int64
  ttl : Duration

def SemanticCacheConfig.validate (c : SemanticCacheConfig) : List String :=
  if !c.enabled then []
  else
    reject (c.threshold.le (.finite 0) ∨ (Value.finite 1).lt c.threshold)
      "cache.semantic.threshold: must be in (0, 1]" ++
    reject (c.maxVectors ≤ 0)
      "cache.semantic.max_vectors: must be > 0 when cache.semantic.enabled is true" ++
    reject (c.ttl ≤ 0) "cache.semantic.ttl: must be > 0 when cache.semantic.enabled is true" ++
    reject (c.hnsw.m ≤ 0) "cache.semantic.hnsw.m: must be > 0 when cache.semantic.enabled is true" ++
    reject (c.hnsw.efSearch ≤ 0)
      "cache.semantic.hnsw.ef_search: must be > 0 when cache.semantic.enabled is true"

structure CacheConfig where
  exact : ExactCacheConfig
  semantic : SemanticCacheConfig
  maxClientTTL : Duration

def CacheConfig.validate (c : CacheConfig) : List String :=
  reject (c.maxClientTTL < 0) "cache.max_client_ttl: must be >= 0" ++
  c.exact.validate ++ c.semantic.validate

structure RateLimitConfig where
  defaultTPM : Int64
  estimateCompletionTokens : Int64

def RateLimitConfig.validate (c : RateLimitConfig) : List String :=
  reject (c.defaultTPM ≤ 0) "rate_limit.default_tpm: must be > 0" ++
  reject (c.estimateCompletionTokens < 0) "rate_limit.estimate_completion_tokens: must be >= 0"

structure LedgerConfig where
  bufferSize : Int64
  batchSize : Int64
  flushInterval : Duration

def LedgerConfig.validate (c : LedgerConfig) : List String :=
  reject (c.bufferSize ≤ 0) "ledger.buffer_size: must be > 0" ++
  reject (c.batchSize ≤ 0) "ledger.batch_size: must be > 0" ++
  reject (c.flushInterval ≤ 0) "ledger.flush_interval: must be > 0"

def validLogLevels : List String := ["debug", "info", "warn", "error"]

structure ObservabilityConfig where
  logLevel : String

def ObservabilityConfig.validate (isPrint : Char → Bool) (c : ObservabilityConfig) : List String :=
  reject (c.logLevel ∉ validLogLevels)
    ("observability.log_level: " ++ quote isPrint c.logLevel ++
      " is not one of debug, info, warn, error")

end Gateway.Config

namespace Gateway
open Gateway.Config

structure Config where
  server : ServerConfig
  redis : RedisConfig
  postgres : PostgresConfig
  providers : List ProviderConfig
  modelAliases : List (String × List (String × String)) := []
  fallbackChains : List (String × List String) := []
  breaker : BreakerConfig
  retry : RetryConfig
  cache : CacheConfig
  rateLimit : RateLimitConfig
  ledger : LedgerConfig
  observability : ObservabilityConfig

namespace Config

/-- Validate: every violation at once, in the order of the sections. -/
def validate (isPrint : Char → Bool) (c : Config) : List String :=
  c.server.validate ++ c.redis.validate ++ c.postgres.validate ++
  (c.providers.zipIdx.flatMap fun p => p.1.validate isPrint p.2) ++
  c.breaker.validate ++ c.retry.validate ++ c.cache.validate ++ c.rateLimit.validate ++
  c.ledger.validate ++ c.observability.validate isPrint

/-- A configuration Load returns: Validate found nothing to reject. -/
structure Accepted (isPrint : Char → Bool) extends Config where
  accepted : toConfig.validate isPrint = []

/-- What main hands to NewRegistry. -/
def breakerConfig (c : Config) : Breaker.Config where
  errorRateThreshold := c.breaker.errorRateThreshold
  minRequests := c.breaker.minRequests.toInt
  window := c.breaker.window
  cooldown := c.breaker.cooldown
  cooldownMax := c.breaker.cooldownMax
  halfOpenProbes := c.breaker.halfOpenProbes.toInt

/-- What main hands to the engine. -/
def retryConfig (c : Config) : Retry.Config where
  maxAttemptsPerProvider := c.retry.maxAttemptsPerProvider
  baseBackoff := c.retry.baseBackoff
  maxBackoff := c.retry.maxBackoff

theorem Accepted.breaker_valid {isPrint : Char → Bool} (c : Accepted isPrint) :
    c.breaker.validate = [] := by
  have all := c.accepted
  simp only [validate, List.append_eq_nil_iff] at all
  tauto

theorem Accepted.halfOpenProbes_pos {isPrint : Char → Bool} (c : Accepted isPrint) :
    1 ≤ c.breakerConfig.halfOpenProbes := by
  have all := c.breaker_valid
  simp only [BreakerConfig.validate, List.append_eq_nil_iff, reject_eq_nil] at all
  have probes : ¬ c.breaker.halfOpenProbes < 1 := by tauto
  exact Int64.le_iff_toInt_le.mp (Int64.not_lt.mp probes)

theorem Accepted.minRequests_pos {isPrint : Char → Bool} (c : Accepted isPrint) :
    1 ≤ c.breakerConfig.minRequests := by
  have all := c.breaker_valid
  simp only [BreakerConfig.validate, List.append_eq_nil_iff, reject_eq_nil] at all
  have requests : ¬ c.breaker.minRequests < 1 := by tauto
  exact Int64.le_iff_toInt_le.mp (Int64.not_lt.mp requests)

/-- Both comparisons of validate let a threshold that is not a number through. -/
theorem Accepted.threshold_cases {isPrint : Char → Bool} (c : Accepted isPrint) :
    c.breakerConfig.errorRateThreshold = .nan ∨
      ∃ q, c.breakerConfig.errorRateThreshold = .finite q ∧ 0 < q ∧ q ≤ 1 := by
  have all := c.breaker_valid
  simp only [BreakerConfig.validate, List.append_eq_nil_iff, reject_eq_nil] at all
  have range : ¬ (c.breaker.errorRateThreshold.le (.finite 0) = true ∨
    (Binary64.Value.finite 1).lt c.breaker.errorRateThreshold = true) := by tauto
  change c.breaker.errorRateThreshold = _ ∨ ∃ q, c.breaker.errorRateThreshold = _ ∧ _
  cases threshold : c.breaker.errorRateThreshold with
  | nan => exact .inl rfl
  | finite q =>
      simp only [threshold, Binary64.Value.le, Binary64.Value.lt, decide_eq_true_eq, not_or, not_le,
        not_lt] at range
      exact .inr ⟨q, rfl, range⟩
  | infinite negative =>
      cases negative <;> simp [threshold, Binary64.Value.le, Binary64.Value.lt] at range

theorem Accepted.maxAttempts_pos {isPrint : Char → Bool} (c : Accepted isPrint) :
    1 ≤ c.retryConfig.maxAttemptsPerProvider := by
  have all := c.accepted
  simp only [validate, RetryConfig.validate, List.append_eq_nil_iff, reject_eq_nil] at all
  have attempts : ¬ c.retry.maxAttemptsPerProvider < 1 := by tauto
  exact Int64.not_lt.mp attempts

theorem Accepted.budget_pos {isPrint : Char → Bool} (c : Accepted isPrint) :
    0 < c.retryConfig.maxAttemptsPerProvider.toInt.toNat := by
  have attempts := Int64.le_iff_toInt_le.mp c.maxAttempts_pos
  have one : (1 : Int64).toInt = 1 := rfl
  omega

theorem Accepted.weight_nonneg {isPrint : Char → Bool} (c : Accepted isPrint) {p : ProviderConfig}
    (member : p ∈ c.providers) : 0 ≤ p.weight := by
  have all := c.accepted
  simp only [validate, List.append_eq_nil_iff] at all
  have providers : (c.providers.zipIdx.flatMap fun p => p.1.validate isPrint p.2) = [] := by tauto
  obtain ⟨i, lt, rfl⟩ := List.getElem_of_mem member
  have among : (c.providers[i], i) ∈ c.providers.zipIdx := by simp [List.mem_zipIdx_iff_getElem?, lt]
  have checked := List.flatMap_eq_nil_iff.mp providers _ among
  simp only [ProviderConfig.validate, List.append_eq_nil_iff, reject_eq_nil] at checked
  exact Int64.not_lt.mp checked.1.1.1.1.2

/-- A small deployment around given breaker and retry sections. -/
def Accepted.deployment (breaker : BreakerConfig) (retry : RetryConfig)
    (valid : breaker.validate = [] ∧ retry.validate = []) : Accepted (fun _ => true) where
  server := ⟨":8080", 1, 1, 1, 1⟩
  redis := ⟨"redis:6379", 1⟩
  postgres := ⟨"DATABASE_URL", 1⟩
  providers := []
  breaker := breaker
  retry := retry
  cache := ⟨⟨false, 0⟩, ⟨false, .finite 0, ⟨0, 0⟩, 0, 0⟩, 0⟩
  rateLimit := ⟨1, 0⟩
  ledger := ⟨1, 1, 1⟩
  observability := ⟨"info"⟩
  accepted := by
    simp only [validate, valid]
    decide +kernel

end Config
end Gateway
