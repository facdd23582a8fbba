import InferenceGateway.Arith.Binary64
import InferenceGateway.Providers.Types

/-! One circuit breaker per (provider, model) pair. Every method runs under the
breaker's mutex and is one atomic function here; the clock readings it takes are
arguments, in nanoseconds. -/
namespace Gateway
open Gateway.Providers (Duration)

inductive Breaker.State where
  | closed
  | halfOpen
  | opened
  deriving DecidableEq, Repr

structure Breaker.Config where
  errorRateThreshold : Binary64.Value
  minRequests : Int
  window : Duration
  cooldown : Duration
  cooldownMax : Duration
  halfOpenProbes : Int
  deriving DecidableEq

structure Breaker.Bucket where
  unixSec : Int := 0
  successes : Int := 0
  failures : Int := 0
  deriving DecidableEq, Repr

structure Breaker where
  providerName : String
  model : String
  cfg : Breaker.Config
  state : Breaker.State := .closed
  buckets : List Breaker.Bucket
  windowSeconds : Int
  curCooldown : Duration
  openedAt : Int := 0
  halfOpenAllowed : Int := 0
  halfOpenWins : Int := 0
  deriving DecidableEq

namespace Breaker

def unix (now : Int) : Int := now / 1000000000

/-- Duration.Seconds: whole seconds and the fraction, added as float64 values. -/
def seconds (d : Duration) : ℚ :=
  Binary64.round (d.toInt.tdiv 1000000000 + Binary64.div (d.toInt.tmod 1000000000) 1000000000)

def newBreaker (providerName model : String) (cfg : Config) : Breaker :=
  let windowSeconds := max 1 ⌊seconds cfg.window⌋
  { providerName, model, cfg, windowSeconds
    buckets := List.replicate windowSeconds.toNat {}
    curCooldown := cfg.cooldown }

def cooldownElapsed (b : Breaker) (now : Int) : Bool :=
  decide (b.curCooldown.toInt ≤ now - b.openedAt)

def ready (b : Breaker) (now : Int) : Bool :=
  match b.state with
  | .closed => true
  | .opened => b.cooldownElapsed now
  | .halfOpen => decide (0 < b.halfOpenAllowed)

/-- The first statement of Allow: an open breaker whose cooldown has elapsed
enters half-open with a fresh probe quota. -/
def enterHalfOpen (b : Breaker) (now : Int) : Breaker :=
  if b.state = .opened ∧ b.cooldownElapsed now then
    { b with state := .halfOpen, halfOpenAllowed := b.cfg.halfOpenProbes, halfOpenWins := 0 }
  else b

def allow (b : Breaker) (now : Int) : Bool × Breaker :=
  let b := b.enterHalfOpen now
  match b.state with
  | .closed => (true, b)
  | .halfOpen =>
      if b.halfOpenAllowed ≤ 0 then (false, b)
      else (true, { b with halfOpenAllowed := b.halfOpenAllowed - 1 })
  | .opened => (false, b)

def record (b : Breaker) (now : Int) (success : Bool) : Breaker :=
  let sec := unix now
  let idx := (sec % b.windowSeconds).toNat
  let current := b.buckets.getD idx {}
  let fresh := if current.unixSec ≠ sec then { unixSec := sec } else current
  let counted := if success then { fresh with successes := fresh.successes + 1 }
    else { fresh with failures := fresh.failures + 1 }
  { b with buckets := b.buckets.set idx counted }

def resetWindow (b : Breaker) : Breaker :=
  { b with buckets := b.buckets.map fun _ => {} }

/-- Total and failures over the buckets whose second lies inside the window. -/
def windowCounts (b : Breaker) (now : Int) : Int × Int :=
  b.buckets.foldl (fun acc bk =>
    let age := unix now - bk.unixSec
    if 0 ≤ age ∧ age < b.windowSeconds then
      (acc.1 + (bk.successes + bk.failures), acc.2 + bk.failures)
    else acc) (0, 0)

/-- float64(failures)/float64(total); an empty window has no rate. -/
def errorRate (failures total : Int) : Binary64.Value :=
  if total = 0 then .nan
  else .finite (Binary64.div (Binary64.round failures) (Binary64.round total))

def shouldTrip (b : Breaker) (now : Int) : Bool :=
  let (total, failures) := b.windowCounts now
  if total < b.cfg.minRequests then false
  else b.cfg.errorRateThreshold.le (errorRate failures total)

def recordSuccess (b : Breaker) (now : Int) : Breaker :=
  match b.state with
  | .halfOpen =>
      let b := { b with halfOpenWins := b.halfOpenWins + 1 }
      if b.cfg.halfOpenProbes ≤ b.halfOpenWins then
        { b with state := .closed, curCooldown := b.cfg.cooldown }.resetWindow
      else b
  | .closed => b.record now true
  | .opened => b

/-- The three clock readings RecordFailure takes in Closed: for the bucket, for the
trip decision and for openedAt. -/
structure Readings where
  recordedAt : Int
  trippedAt : Int
  openedAt : Int
  deriving DecidableEq, Repr

def recordFailure (b : Breaker) (clock : Readings) : Breaker :=
  match b.state with
  | .halfOpen =>
      { b with curCooldown := min (b.curCooldown * 2) b.cfg.cooldownMax, state := .opened
               openedAt := clock.openedAt }
  | .closed =>
      let b := b.record clock.recordedAt false
      if b.shouldTrip clock.trippedAt then
        { b with curCooldown := b.cfg.cooldown, state := .opened, openedAt := clock.openedAt }
      else b
  | .opened => b

/-- The registry key of a breaker. -/
def key (providerName model : String) : String := providerName ++ "\x00" ++ model

end Breaker
end Gateway
