import InferenceGateway.Interaction.Program
import InferenceGateway.Arith.Binary64
import InferenceGateway.Breaker.Breaker
import InferenceGateway.Retry.Backoff
import InferenceGateway.Retry.Engine
import InferenceGateway.Retry.Selection
import InferenceGateway.Retry.Splicing
import InferenceGateway.Retry.Failover
import InferenceGateway.Retry.Statusless
import InferenceGateway.Interaction.Pool
import InferenceGateway.Config.Config
import InferenceGateway.Breaker.Prober
import InferenceGateway.Breaker.Registry
import InferenceGateway.Breaker.Custody
import InferenceGateway.Breaker.Recovery
import InferenceGateway.RateLimit.Scripts
import InferenceGateway.RateLimit.Bound
import InferenceGateway.Http.Response
import InferenceGateway.Interaction.Handler
import InferenceGateway.Json.Encode
import InferenceGateway.Server.Ops
import InferenceGateway.Http.EventStream
import InferenceGateway.Retry.StreamLog
import InferenceGateway.Server.Chat
import InferenceGateway.Server.Framing
import InferenceGateway.Server.Minting
import InferenceGateway.Auth.Revocation
import InferenceGateway.Breaker.Gate
import InferenceGateway.Breaker.Traffic
import InferenceGateway.Cache.Exact
import InferenceGateway.Cache.History
import InferenceGateway.Http.Scanner
import InferenceGateway.Providers.Anthropic
import InferenceGateway.Providers.Dialect
import InferenceGateway.RateLimit.Expiry
import InferenceGateway.RateLimit.Limiter
import InferenceGateway.Server.Completeness
import InferenceGateway.Server.Refunds
import InferenceGateway.Server.Reuse
import InferenceGateway.Breaker.Metering
import InferenceGateway.Breaker.Probing
import InferenceGateway.Cache.Keyspace
import InferenceGateway.Cache.Nearest
import InferenceGateway.Providers.Translation
import InferenceGateway.Interaction.Lockstep
import InferenceGateway.Retry.Acceptance
import InferenceGateway.Retry.Parity
import InferenceGateway.Server.Parity
import InferenceGateway.Server.Purge
import InferenceGateway.Server.Replay
import InferenceGateway.Arith.Rounding
import InferenceGateway.Breaker.Cooldown
import InferenceGateway.Breaker.Threshold
import InferenceGateway.Grouping.Basic
import InferenceGateway.RateLimit.Clock
import InferenceGateway.Retry.Weights
import InferenceGateway.Router.Chains
import InferenceGateway.Router.Tiers
import InferenceGateway.Server.GuardRail
import InferenceGateway.Cache.Alike
import InferenceGateway.Cache.Restart
import InferenceGateway.Embedding.Encode
import InferenceGateway.Glob.Basic
import InferenceGateway.Interaction.Attribution
import InferenceGateway.Ledger.Batches
import InferenceGateway.Retry.Jitter
import InferenceGateway.Retry.Producers
import InferenceGateway.Retry.RetryAfter
import InferenceGateway.Server.Attribution
import InferenceGateway.Server.RoundTrip
import InferenceGateway.Server.Tenancy
import InferenceGateway.Auth.Codec
import InferenceGateway.Auth.Issue
import InferenceGateway.Auth.Lifecycle
import InferenceGateway.Cache.Stored
import InferenceGateway.Interaction.Pipe
import InferenceGateway.Interaction.Recorder
import InferenceGateway.Retry.Relay
import InferenceGateway.Server.Billing
import InferenceGateway.Server.Hits
import InferenceGateway.Ledger.Books
import InferenceGateway.Ledger.Closing
import InferenceGateway.Providers.Agreement
import InferenceGateway.Retry.Answers
import InferenceGateway.Server.Agreement
import InferenceGateway.Server.SemanticHits
import InferenceGateway.Server.Shutdown
import InferenceGateway.Interaction.Refinement
import InferenceGateway.Redis.Keys
import InferenceGateway.Server.OneRedis
import InferenceGateway.Server.Logging
