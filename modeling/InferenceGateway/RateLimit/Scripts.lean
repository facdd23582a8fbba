import InferenceGateway.TokenBucket.Basic

/-! The two Lua scripts of package ratelimit and the methods that run them. A script
execution is atomic; numbers are exact rationals, times are seconds of the Redis clock. -/
namespace Gateway.RateLimit
open TokenBucket (level)

/-- The hash stored for one bucket, with the time its key expires. -/
structure Bucket where
  tokens : ℚ
  lastRefill : ℚ
  expireAt : ℚ
  deriving DecidableEq

abbrev Redis := String → Option Bucket

structure Scopes where
  orgID : String
  teamID : String
  keyID : String
  orgCapacity : Int64
  teamCapacity : Int64
  keyCapacity : Int64
  deriving DecidableEq

def bucketKey (scope id : String) : String := "bucket:" ++ scope ++ ":" ++ id

/-- One pass of a script's loop: the scope's name, its KEYS entry and its capacity. -/
structure Slot where
  scope : String
  key : String
  cap : ℚ
  deriving DecidableEq

def Scopes.slots (s : Scopes) : List Slot :=
  [⟨"org", bucketKey "org" s.orgID, s.orgCapacity.toInt⟩,
    ⟨"team", bucketKey "team" s.teamID, s.teamCapacity.toInt⟩,
    ⟨"key", bucketKey "key" s.keyID, s.keyCapacity.toInt⟩]

def bucketTTL : ℚ := 120

def Bucket.stored (b : Bucket) : TokenBucket.Stored ℚ := ⟨b.tokens, b.lastRefill⟩

/-- The balance both scripts compute for a bucket before they use it. -/
def refilled (r : Redis) (slot : Slot) (now : ℚ) : ℚ :=
  level slot.cap (slot.cap / 60) ((r slot.key).map Bucket.stored) now

def write (r : Redis) (key : String) (tokens now ttl : ℚ) : Redis :=
  Function.update r key (some ⟨tokens, now, now + ttl⟩)

/-- The array reserve.lua returns. -/
structure Reply where
  allowed : Int
  retryAfterMs : Int
  limitingScope : String
  remainingKeyTokens : Int
  deriving DecidableEq

/-- The first loop of reserve.lua: the balances, or the reply of the first short scope. -/
def checkSlots (r : Redis) (cost now : ℚ) : List Slot → List ℚ → Except Reply (List ℚ)
  | [], balances => .ok balances
  | slot :: rest, balances =>
      let tokens := refilled r slot now
      if tokens < cost then
        .error ⟨0, ⌈(cost - tokens) / (slot.cap / 60) * 1000⌉, slot.scope, 0⟩
      else checkSlots r cost now rest (balances ++ [tokens])

/-- The second loop of reserve.lua. -/
def deductSlots (cost now ttl : ℚ) : List (Slot × ℚ) → Redis → Redis
  | [], r => r
  | (slot, balance) :: rest, r =>
      deductSlots cost now ttl rest (write r slot.key (balance - cost) now ttl)

def reserveScript (r : Redis) (slots : List Slot) (cost ttl now : ℚ) : Reply × Redis :=
  match checkSlots r cost now slots [] with
  | .error reply => (reply, r)
  | .ok balances =>
      (⟨1, 0, "", ⌊balances.getD 2 0 - cost⌋⟩, deductSlots cost now ttl (slots.zip balances) r)

def adjustScript (r : Redis) (slots : List Slot) (delta ttl now : ℚ) : Redis :=
  slots.foldl (fun r slot =>
    let tokens := refilled r slot now + delta
    write r slot.key (if slot.cap < tokens then slot.cap else tokens) now ttl) r

structure Decision where
  allowed : Bool
  retryAfter : Int64 := 0
  limitingScope : String := ""
  remaining : Int64 := 0
  deriving DecidableEq

/-- What Limiter.Reserve makes of the script's reply, or of the error of running it. -/
def decision (failOpen : Bool) : Except String Reply → Except String Decision
  | .error err => if failOpen then .ok { allowed := true } else .error ("ratelimit: reserve: " ++ err)
  | .ok reply =>
      .ok { allowed := reply.allowed == 1
            retryAfter := Int64.ofInt reply.retryAfterMs * 1000000
            limitingScope := reply.limitingScope
            remaining := Int64.ofInt reply.remainingKeyTokens }

/-- The keys of the three scopes never coincide: their prefixes differ. -/
theorem slots_nodup (s : Scopes) : (s.slots.map Slot.key).Nodup := by
  have org : ∀ a b, bucketKey "org" a ≠ bucketKey "team" b ∧ bucketKey "org" a ≠ bucketKey "key" b ∧
      bucketKey "team" a ≠ bucketKey "key" b := by
    intro a b
    refine ⟨?_, ?_, ?_⟩ <;>
    · intro same
      have chars := congrArg String.toList same
      simp [bucketKey] at chars
  simp [Scopes.slots, org]

end Gateway.RateLimit
