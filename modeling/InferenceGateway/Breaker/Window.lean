import InferenceGateway.Config.Config
import InferenceGateway.SlidingWindow.Ring

/-! The breaker's bucket ring against an exact sliding window: an ideal breaker that keeps
every outcome since it last became closed and compares rates exactly. -/
namespace Gateway.Breaker
open SlidingWindow (Tracks total windowed)
open Gateway.Providers (Duration)

def Bucket.slot (bk : Bucket) : SlidingWindow.Slot (Int × Int) :=
  ⟨bk.unixSec, bk.successes, bk.failures⟩

def ring (b : Breaker) : List (SlidingWindow.Slot (Int × Int)) := b.buckets.map Bucket.slot

/-- One outcome as successes and failures. -/
def outcome (success : Bool) : Int × Int := if success then (1, 0) else (0, 1)

theorem record_ring (b : Breaker) (now : Int) (success : Bool) :
    (b.record now success).ring =
      SlidingWindow.add b.windowSeconds b.ring (unix now) (outcome success) := by
  unfold SlidingWindow.add ring record
  simp only [List.map_set]
  rw [List.modify_eq_set_getElem?, List.getElem?_map, SlidingWindow.index]
  cases found : b.buckets[(unix now % b.windowSeconds).toNat]? with
  | none =>
      have outside := List.getElem?_eq_none_iff.mp found
      exact List.set_eq_of_length_le (by rw [List.length_map]; exact outside)
  | some current =>
      have stored : b.buckets.getD (unix now % b.windowSeconds).toNat {} = current := by
        rw [List.getD_eq_getElem?_getD, found, Option.getD_some]
      rw [stored]
      by_cases same : current.unixSec = unix now
      · cases success <;> simp [same, Bucket.slot, SlidingWindow.Slot.add, outcome]
      · cases success <;> simp [same, Bucket.slot, SlidingWindow.Slot.add, outcome]

theorem windowCounts_ring (b : Breaker) (now : Int) :
    b.windowCounts now =
      ((total b.windowSeconds (unix now) b.ring).1 + (total b.windowSeconds (unix now) b.ring).2,
        (total b.windowSeconds (unix now) b.ring).2) := by
  have fold : ∀ (buckets : List Bucket) (acc : Int × Int),
      buckets.foldl (fun acc bk =>
        let age := unix now - bk.unixSec
        if 0 ≤ age ∧ age < b.windowSeconds then
          (acc.1 + (bk.successes + bk.failures), acc.2 + bk.failures)
        else acc) acc =
      let counted := total b.windowSeconds (unix now) (buckets.map Bucket.slot)
      (acc.1 + (counted.1 + counted.2), acc.2 + counted.2) := by
    intro buckets
    induction buckets with
    | nil => simp [total]
    | cons bk buckets ih =>
        intro acc
        rw [List.foldl_cons, ih, List.map_cons, SlidingWindow.total_cons]
        by_cases inside : SlidingWindow.Within b.windowSeconds (unix now) bk.unixSec
        · have contribution : bk.slot.contribution b.windowSeconds (unix now) =
              (bk.successes, bk.failures) := if_pos inside
          unfold SlidingWindow.Within at inside
          simp only [if_pos inside, contribution, Prod.fst_add, Prod.snd_add, Prod.mk.injEq]
          constructor <;> ring
        · have contribution : bk.slot.contribution b.windowSeconds (unix now) = 0 := if_neg inside
          unfold SlidingWindow.Within at inside
          simp only [if_neg inside, contribution, zero_add]
  simpa [windowCounts, ring] using fold b.buckets (0, 0)

/-- What an ideal breaker knows in each state. A closed one has every outcome since it
closed, with its second. -/
inductive Ideal.Phase where
  | closed (pairs : List (Int × Bool))
  | halfOpen (allowed wins : Int)
  | opened (since : Int)
  deriving DecidableEq

structure Ideal where
  cfg : Config
  cooldown : Duration
  phase : Ideal.Phase
  deriving DecidableEq

namespace Ideal

def start (cfg : Config) : Ideal := ⟨cfg, cfg.cooldown, .closed []⟩

def state (i : Ideal) : State :=
  match i.phase with
  | .closed _ => .closed
  | .halfOpen _ _ => .halfOpen
  | .opened _ => .opened

/-- The length of the window in whole seconds, at least one. -/
def windowSeconds (cfg : Config) : Int := max 1 (cfg.window.toInt / 1000000000)

def recent (cfg : Config) (pairs : List (Int × Bool)) (now : Int) : List (Int × Bool) :=
  pairs.filter fun pair => unix now - windowSeconds cfg < pair.1

def failures (pairs : List (Int × Bool)) : Nat := pairs.countP fun pair => !pair.2

/-- Enough volume, and an exact failure rate at or above the threshold. -/
def trips (cfg : Config) (pairs : List (Int × Bool)) (now : Int) : Bool :=
  let inside := recent cfg pairs now
  decide (cfg.minRequests ≤ inside.length) &&
    cfg.errorRateThreshold.le (.finite ((failures inside : ℚ) / inside.length))

def allow (i : Ideal) (now : Int) : Bool × Ideal :=
  match i.phase with
  | .closed _ => (true, i)
  | .opened since =>
      if i.cooldown.toInt ≤ now - since then
        if i.cfg.halfOpenProbes ≤ 0 then (false, { i with phase := .halfOpen i.cfg.halfOpenProbes 0 })
        else (true, { i with phase := .halfOpen (i.cfg.halfOpenProbes - 1) 0 })
      else (false, i)
  | .halfOpen allowed wins =>
      if allowed ≤ 0 then (false, i) else (true, { i with phase := .halfOpen (allowed - 1) wins })

def recordSuccess (i : Ideal) (now : Int) : Ideal :=
  match i.phase with
  | .closed pairs => { i with phase := .closed (pairs ++ [(unix now, true)]) }
  | .opened _ => i
  | .halfOpen allowed wins =>
      if i.cfg.halfOpenProbes ≤ wins + 1 then { i with cooldown := i.cfg.cooldown, phase := .closed [] }
      else { i with phase := .halfOpen allowed (wins + 1) }

def recordFailure (i : Ideal) (clock : Readings) : Ideal :=
  match i.phase with
  | .closed pairs =>
      let pairs := pairs ++ [(unix clock.recordedAt, false)]
      if trips i.cfg pairs clock.trippedAt then
        { i with cooldown := i.cfg.cooldown, phase := .opened clock.openedAt }
      else { i with phase := .closed pairs }
  | .opened _ => i
  | .halfOpen _ _ =>
      { i with cooldown := min (i.cooldown * 2) i.cfg.cooldownMax, phase := .opened clock.openedAt }

end Ideal

inductive Operation where
  | allow (now : Int)
  | recordSuccess (now : Int)
  | recordFailure (clock : Readings)

def Operation.readings : Operation → List Int
  | .allow now | .recordSuccess now => [now]
  | .recordFailure clock => [clock.recordedAt, clock.trippedAt, clock.openedAt]

/-- What Allow answers, and the breaker afterwards. -/
def Operation.run (b : Breaker) : Operation → Option Bool × Breaker
  | .allow now => (some (b.allow now).1, (b.allow now).2)
  | .recordSuccess now => (none, b.recordSuccess now)
  | .recordFailure clock => (none, b.recordFailure clock)

def Operation.runIdeal (i : Ideal) : Operation → Option Bool × Ideal
  | .allow now => (some (i.allow now).1, (i.allow now).2)
  | .recordSuccess now => (none, i.recordSuccess now)
  | .recordFailure clock => (none, i.recordFailure clock)

/-- Every answer of a run, with the state it leaves. -/
def trace (b : Breaker) : List Operation → List (Option Bool × State)
  | [] => []
  | op :: ops => ((op.run b).1, (op.run b).2.state) :: trace (op.run b).2 ops

def Ideal.trace (i : Ideal) : List Operation → List (Option Bool × State)
  | [] => []
  | op :: ops => ((op.runIdeal i).1, (op.runIdeal i).2.state) :: Ideal.trace (op.runIdeal i).2 ops

/-- The trip decision on given counts, with the rate as a float64. -/
def floatTrips (cfg : Config) (total failures : Int) : Bool :=
  if total < cfg.minRequests then false
  else cfg.errorRateThreshold.le (errorRate failures total)

/-- A failure recorded while closed is compared with the threshold alike in float64 and
exactly. -/
def Ideal.agrees (i : Ideal) : Operation → Bool
  | .recordFailure clock =>
      match i.phase with
      | .closed pairs =>
          let pairs := pairs ++ [(unix clock.recordedAt, false)]
          let inside := recent i.cfg pairs clock.trippedAt
          floatTrips i.cfg inside.length (failures inside) == trips i.cfg pairs clock.trippedAt
      | _ => true
  | _ => true

/-- The condition at every operation of a run. -/
def Ideal.allAgree (i : Ideal) : List Operation → Bool
  | [] => true
  | op :: ops => i.agrees op && (op.runIdeal i).2.allAgree ops

/-- The log an ideal breaker's pairs stand for. -/
def logOf (pairs : List (Int × Bool)) : List (Int × (Int × Int)) :=
  pairs.map fun pair => (pair.1, outcome pair.2)

theorem windowed_logOf (n now : Int) (pairs : List (Int × Bool)) :
    let inside := pairs.filter fun pair => now - n < pair.1
    (windowed n now (logOf pairs)).1 + (windowed n now (logOf pairs)).2 = inside.length ∧
      (windowed n now (logOf pairs)).2 = Ideal.failures inside := by
  induction pairs with
  | nil => simp [windowed, logOf, Ideal.failures]
  | cons pair pairs ih =>
      simp only [windowed, logOf, List.map_cons, List.sum_cons, Ideal.failures, Prod.fst_add,
        Prod.snd_add, List.filter_cons] at ih ⊢
      by_cases inside : now - n < pair.1
      · rcases pair with ⟨second, success⟩
        cases success with
        | true => simp [inside, outcome, ← ih.2, ← ih.1]; ring
        | false => simp [inside, outcome, ← ih.2, ← ih.1]; constructor <;> ring
      · simpa [inside] using ih

/-- The simulation: a closed breaker's ring counts the pairs. -/
structure Simulates (b : Breaker) (i : Ideal) : Prop where
  cfg : b.cfg = i.cfg
  cooldown : b.curCooldown = i.cooldown
  seconds : b.windowSeconds = Ideal.windowSeconds i.cfg
  size : b.buckets.length = b.windowSeconds.toNat
  phase : match i.phase with
    | .closed pairs => b.state = .closed ∧ Tracks b.windowSeconds b.ring (logOf pairs)
    | .halfOpen allowed wins =>
        b.state = .halfOpen ∧ b.halfOpenAllowed = allowed ∧ b.halfOpenWins = wins
    | .opened since => b.state = .opened ∧ b.openedAt = since

theorem unix_mono {s t : Int} (order : s ≤ t) : unix s ≤ unix t :=
  Int.ediv_le_ediv (by norm_num) order

theorem Ideal.windowSeconds_pos (cfg : Config) : 0 < windowSeconds cfg :=
  lt_of_lt_of_le one_pos (le_max_left 1 _)

/-- What a ring that counts the pairs finds in the window. -/
theorem windowCounts_tracks {b : Breaker} {pairs : List (Int × Bool)} {now : Int}
    (tracks : Tracks b.windowSeconds b.ring (logOf pairs))
    (latest : ∀ pair ∈ pairs, pair.1 ≤ unix now) :
    let inside := pairs.filter fun pair => unix now - b.windowSeconds < pair.1
    b.windowCounts now = ((inside.length : Int), (Ideal.failures inside : Int)) := by
  have counted := tracks.counts (unix now) (by
    intro entry member
    obtain ⟨pair, among, rfl⟩ := List.mem_map.mp member
    exact latest pair among)
  obtain ⟨totals, failed⟩ := windowed_logOf b.windowSeconds (unix now) pairs
  rw [windowCounts_ring, counted, totals, failed]

/-- On a ring that counts the pairs, shouldTrip decides from the window's exact counts. -/
theorem shouldTrip_tracks {b : Breaker} {pairs : List (Int × Bool)} {now : Int}
    (tracks : Tracks b.windowSeconds b.ring (logOf pairs))
    (seconds : b.windowSeconds = Ideal.windowSeconds b.cfg)
    (latest : ∀ pair ∈ pairs, pair.1 ≤ unix now) :
    b.shouldTrip now = floatTrips b.cfg (Ideal.recent b.cfg pairs now).length
      (Ideal.failures (Ideal.recent b.cfg pairs now)) := by
  unfold shouldTrip floatTrips Ideal.recent
  rw [windowCounts_tracks tracks latest, seconds]

variable {b : Breaker} {i : Ideal} {now : Int} {clock : Readings}

theorem Simulates.state_eq (h : Simulates b i) : b.state = i.state := by
  have phase := h.phase
  unfold Ideal.state
  cases hp : i.phase with
  | closed pairs =>
      rw [hp] at phase
      exact phase.1
  | halfOpen allowed wins =>
      rw [hp] at phase
      exact phase.1
  | opened since =>
      rw [hp] at phase
      exact phase.1

theorem Simulates.allow (h : Simulates b i) (now : Int) :
    (b.allow now).1 = (i.allow now).1 ∧ Simulates (b.allow now).2 (i.allow now).2 := by
  obtain ⟨cfg, cooldown, seconds, size, phase⟩ := h
  rcases i with ⟨icfg, icooldown, iphase⟩
  simp only at cfg cooldown seconds phase
  subst cfg cooldown
  cases iphase with
  | closed pairs =>
      obtain ⟨state, tracks⟩ := phase
      simp only [Breaker.allow, enterHalfOpen, Ideal.allow, state, reduceCtorEq, false_and, if_false]
      exact ⟨trivial, rfl, rfl, seconds, size, state, tracks⟩
  | halfOpen allowed wins =>
      obtain ⟨state, rfl, rfl⟩ := phase
      simp only [Breaker.allow, enterHalfOpen, Ideal.allow, state, reduceCtorEq, false_and, if_false]
      split
      · exact ⟨rfl, rfl, rfl, seconds, size, state, rfl, rfl⟩
      · exact ⟨rfl, rfl, rfl, seconds, size, rfl, rfl, rfl⟩
  | opened since =>
      obtain ⟨state, rfl⟩ := phase
      by_cases elapsed : b.curCooldown.toInt ≤ now - b.openedAt
      · simp only [Breaker.allow, enterHalfOpen, Ideal.allow, state, cooldownElapsed, elapsed,
          decide_true, true_and, if_true]
        split
        · exact ⟨rfl, rfl, rfl, seconds, size, rfl, rfl, rfl⟩
        · exact ⟨rfl, rfl, rfl, seconds, size, rfl, rfl, rfl⟩
      · simp only [Breaker.allow, enterHalfOpen, Ideal.allow, state, cooldownElapsed, elapsed,
          decide_false, Bool.false_eq_true, and_false, if_false]
        exact ⟨trivial, rfl, rfl, seconds, size, state, rfl⟩

/-- Recording adds one pair, at a second no earlier than those before it. -/
theorem record_tracks {pairs : List (Int × Bool)} (positive : 0 < b.windowSeconds)
    (tracks : Tracks b.windowSeconds b.ring (logOf pairs)) (order : ∀ pair ∈ pairs, pair.1 ≤ unix now)
    (success : Bool) :
    Tracks b.windowSeconds (b.record now success).ring (logOf (pairs ++ [(unix now, success)])) := by
  have ordered : ∀ entry ∈ logOf pairs, entry.1 ≤ unix now := by
    intro entry member
    obtain ⟨pair, among, rfl⟩ := List.mem_map.mp member
    exact order pair among
  have added := tracks.add positive ordered (outcome success)
  rw [← record_ring] at added
  simp only [logOf, List.map_append, List.map_cons, List.map_nil]
  exact added

theorem Simulates.record {pairs : List (Int × Bool)} (h : Simulates b i)
    (closed : i.phase = .closed pairs) (order : ∀ pair ∈ pairs, pair.1 ≤ unix now) (success : Bool) :
    Simulates (b.record now success) { i with phase := .closed (pairs ++ [(unix now, success)]) } := by
  have phase := h.phase
  rw [closed] at phase
  have positive : 0 < b.windowSeconds := h.seconds ▸ Ideal.windowSeconds_pos i.cfg
  refine ⟨h.cfg, h.cooldown, h.seconds, ?_, phase.1, record_tracks positive phase.2 order success⟩
  simp only [Breaker.record, List.length_set]
  exact h.size

/-- A reset ring counts the empty log. -/
theorem resetWindow_tracks (size : b.buckets.length = b.windowSeconds.toNat) :
    Tracks b.resetWindow.windowSeconds b.resetWindow.ring (logOf []) := by
  have empty : b.resetWindow.ring = List.replicate b.windowSeconds.toNat ⟨0, 0⟩ := by
    rw [List.eq_replicate_iff]
    constructor
    · simp only [ring, resetWindow, List.length_map]
      exact size
    · intro slot member
      simp only [ring, resetWindow, List.map_map] at member
      obtain ⟨bk, -, rfl⟩ := List.mem_map.mp member
      rfl
  rw [empty]
  exact SlidingWindow.tracks_replicate b.windowSeconds 0

theorem Simulates.recordSuccess (h : Simulates b i)
    (order : ∀ pairs, i.phase = .closed pairs → ∀ pair ∈ pairs, pair.1 ≤ unix now) :
    Simulates (b.recordSuccess now) (i.recordSuccess now) := by
  have phase := h.phase
  cases hp : i.phase with
  | closed pairs =>
      rw [hp] at phase
      simp only [Breaker.recordSuccess, phase.1, Ideal.recordSuccess, hp]
      exact h.record hp (order pairs hp) true
  | opened since =>
      rw [hp] at phase
      simp only [Breaker.recordSuccess, phase.1, Ideal.recordSuccess, hp]
      exact h
  | halfOpen allowed wins =>
      rw [hp] at phase
      obtain ⟨state, left, won⟩ := phase
      simp only [Breaker.recordSuccess, state, Ideal.recordSuccess, hp, won]
      have seconds : b.windowSeconds = Ideal.windowSeconds b.cfg := h.cfg ▸ h.seconds
      rw [← h.cfg]
      split
      · refine ⟨rfl, rfl, seconds, ?_, rfl, resetWindow_tracks h.size⟩
        simp only [resetWindow, List.length_map]
        exact h.size
      · exact ⟨rfl, h.cooldown, seconds, h.size, rfl, left, rfl⟩

/-- A failure keeps the simulation exactly if both comparisons of its rate agree. -/
theorem Simulates.recordFailure (h : Simulates b i) (ordered : clock.recordedAt ≤ clock.trippedAt)
    (order : ∀ pairs, i.phase = .closed pairs → ∀ pair ∈ pairs, pair.1 ≤ unix clock.recordedAt) :
    ((b.recordFailure clock).state = (i.recordFailure clock).state →
        i.agrees (.recordFailure clock)) ∧
      (i.agrees (.recordFailure clock) →
        Simulates (b.recordFailure clock) (i.recordFailure clock)) := by
  have phase := h.phase
  cases hp : i.phase with
  | opened since =>
      rw [hp] at phase
      refine ⟨fun _ => by simp only [Ideal.agrees, hp], fun _ => ?_⟩
      simp only [Breaker.recordFailure, phase.1, Ideal.recordFailure, hp]
      exact h
  | halfOpen allowed wins =>
      rw [hp] at phase
      refine ⟨fun _ => by simp only [Ideal.agrees, hp], fun _ => ?_⟩
      simp only [Breaker.recordFailure, phase.1, Ideal.recordFailure, hp]
      have doubled : min (b.curCooldown * 2) b.cfg.cooldownMax =
          min (i.cooldown * 2) i.cfg.cooldownMax := by
        rw [h.cfg, h.cooldown]
      exact ⟨h.cfg, doubled, h.seconds, h.size, rfl, rfl⟩
  | closed pairs =>
      rw [hp] at phase
      have recorded := h.record hp (order pairs hp) false
      have latest : ∀ pair ∈ pairs ++ [(unix clock.recordedAt, false)],
          pair.1 ≤ unix clock.trippedAt := by
        intro pair member
        rcases List.mem_append.mp member with old | new
        · exact (order pairs hp pair old).trans (unix_mono ordered)
        · rw [List.mem_singleton.mp new]
          exact unix_mono ordered
      have decided := shouldTrip_tracks recorded.phase.2 (recorded.cfg ▸ recorded.seconds) latest
      rw [show (b.record clock.recordedAt false).cfg = i.cfg from recorded.cfg] at decided
      have agrees : i.agrees (.recordFailure clock) ↔
          (b.record clock.recordedAt false).shouldTrip clock.trippedAt =
            Ideal.trips i.cfg (pairs ++ [(unix clock.recordedAt, false)]) clock.trippedAt := by
        simp only [Ideal.agrees, hp, decided, beq_iff_eq]
      rw [agrees]
      simp only [Breaker.recordFailure, phase.1, Ideal.recordFailure, hp]
      cases (b.record clock.recordedAt false).shouldTrip clock.trippedAt with
      | true =>
          cases Ideal.trips i.cfg (pairs ++ [(unix clock.recordedAt, false)]) clock.trippedAt with
          | true =>
              refine ⟨fun _ => rfl, fun _ => ?_⟩
              exact ⟨h.cfg, congrArg Config.cooldown h.cfg, h.seconds, recorded.size, rfl, rfl⟩
          | false => exact ⟨nofun, nofun⟩
      | false =>
          cases Ideal.trips i.cfg (pairs ++ [(unix clock.recordedAt, false)]) clock.trippedAt with
          | true =>
              refine ⟨?_, nofun⟩
              intro same
              change b.state = _ at same
              rw [phase.1] at same
              cases same
          | false => exact ⟨fun _ => rfl, fun _ => recorded⟩

/-- Every pair kept so far is no later than the clock readings still to come. -/
def Ideal.Before (i : Ideal) (readings : List Int) : Prop :=
  ∀ pairs, i.phase = .closed pairs → ∀ pair ∈ pairs, ∀ t ∈ readings, pair.1 ≤ unix t

theorem Ideal.Before.allow {readings : List Int} (h : i.Before readings) (now : Int) :
    (i.allow now).2.Before readings := by
  intro pairs closed
  cases hp : i.phase with
  | closed kept =>
      simp only [Ideal.allow, hp] at closed
      exact h pairs (hp.trans closed)
  | halfOpen allowed wins =>
      simp only [Ideal.allow, hp] at closed
      split at closed <;> simp_all
  | opened since =>
      simp only [Ideal.allow, hp] at closed
      split at closed
      · split at closed <;> cases closed
      · rw [hp] at closed
        cases closed

/-- A recorded pair keeps to the order if its own reading is no later than those to come. -/
theorem Ideal.Before.append {readings : List Int} {pairs : List (Int × Bool)} {success : Bool}
    (h : i.Before readings) (closed : i.phase = .closed pairs) (next : ∀ t ∈ readings, now ≤ t) :
    { i with phase := Phase.closed (pairs ++ [(unix now, success)]) }.Before readings := by
  rintro _ ⟨⟩ pair member t later
  rcases List.mem_append.mp member with old | new
  · exact h pairs closed pair old t later
  · rw [List.mem_singleton.mp new]
    exact unix_mono (next t later)

theorem Ideal.Before.recordSuccess {readings : List Int} (h : i.Before readings)
    (next : ∀ t ∈ readings, now ≤ t) : (i.recordSuccess now).Before readings := by
  unfold Ideal.recordSuccess
  split
  · rename_i pairs hp
    exact h.append hp next
  · exact h
  · split
    · rintro _ ⟨⟩ pair member
      cases member
    · rintro _ ⟨⟩

theorem Ideal.Before.recordFailure {readings : List Int} (h : i.Before readings)
    (next : ∀ t ∈ readings, clock.recordedAt ≤ t) : (i.recordFailure clock).Before readings := by
  unfold Ideal.recordFailure
  split
  · rename_i pairs hp
    simp only
    split
    · rintro _ ⟨⟩
    · exact h.append hp next
  · exact h
  · rintro _ ⟨⟩

/-- One operation: the same answer, and the same state afterwards exactly if it meets the
condition; then the simulation goes on. -/
theorem Simulates.step {op : Operation} {later : List Int} (h : Simulates b i)
    (before : i.Before (op.readings ++ later)) (order : (op.readings ++ later).Pairwise (· ≤ ·)) :
    (op.run b).1 = (op.runIdeal i).1 ∧
      ((op.run b).2.state = (op.runIdeal i).2.state ↔ i.agrees op) ∧
      (i.agrees op → Simulates (op.run b).2 (op.runIdeal i).2 ∧ (op.runIdeal i).2.Before later) := by
  have rest : i.Before later := fun pairs closed pair member t among =>
    before pairs closed pair member t (List.mem_append_right _ among)
  cases op with
  | allow now =>
      obtain ⟨answer, simulates⟩ := h.allow now
      exact ⟨congrArg some answer, iff_of_true simulates.state_eq rfl,
        fun _ => ⟨simulates, rest.allow now⟩⟩
  | recordSuccess now =>
      have simulates : Simulates (b.recordSuccess now) (i.recordSuccess now) :=
        h.recordSuccess fun pairs closed pair member =>
          before pairs closed pair member now List.mem_cons_self
      refine ⟨rfl, iff_of_true simulates.state_eq rfl, fun _ => ⟨simulates, ?_⟩⟩
      exact rest.recordSuccess (List.pairwise_cons.mp order).1
  | recordFailure clock =>
      obtain ⟨first, -⟩ := List.pairwise_cons.mp order
      obtain ⟨differ, simulates⟩ := h.recordFailure (first _ List.mem_cons_self)
        fun pairs closed pair member =>
          before pairs closed pair member clock.recordedAt List.mem_cons_self
      refine ⟨rfl, ⟨differ, fun agrees => (simulates agrees).state_eq⟩, fun agrees => ?_⟩
      refine ⟨simulates agrees, rest.recordFailure fun t among => first t ?_⟩
      simp [among]

theorem Simulates.trace_eq_iff {ops : List Operation} (h : Simulates b i)
    (before : i.Before (ops.flatMap Operation.readings))
    (order : (ops.flatMap Operation.readings).Pairwise (· ≤ ·)) :
    b.trace ops = i.trace ops ↔ i.allAgree ops := by
  induction ops generalizing b i with
  | nil => exact iff_of_true rfl rfl
  | cons op ops ih =>
      rw [List.flatMap_cons] at before order
      obtain ⟨answer, state, go⟩ := h.step before order
      rw [Breaker.trace, Ideal.trace, Ideal.allAgree, List.cons.injEq, Prod.mk.injEq, answer, state,
        Bool.and_eq_true]
      simp only [true_and]
      apply and_congr_right
      intro agrees
      obtain ⟨simulates, rest⟩ := go agrees
      exact ih simulates rest (List.pairwise_append.mp order).2.1

theorem newBreaker_tracks (providerName model : String) (cfg : Config) :
    Tracks (newBreaker providerName model cfg).windowSeconds (newBreaker providerName model cfg).ring
      (logOf []) := by
  have empty : (newBreaker providerName model cfg).ring =
      List.replicate (max 1 ⌊seconds cfg.window⌋).toNat ⟨0, 0⟩ := List.map_replicate
  rw [empty]
  exact SlidingWindow.tracks_replicate _ 0

theorem newBreaker_simulates {cfg : Config} (providerName model : String)
    (whole : max 1 ⌊seconds cfg.window⌋ = Ideal.windowSeconds cfg) :
    Simulates (newBreaker providerName model cfg) (Ideal.start cfg) :=
  ⟨rfl, rfl, whole, List.length_replicate, rfl, newBreaker_tracks providerName model cfg⟩

-- In float64 a long window just short of a whole second has that second too.
example : ⌊seconds 16777216999999999⌋ = 16777217 := by decide +kernel

/-- A threshold of 0.1, read as the float64 nearest to it, over ten seconds with at least
ten requests. -/
def tenth : Gateway.Config.Accepted (fun _ => true) :=
  .deployment ⟨.finite (Binary64.round (1 / 10)), 10, 10000000000, 1, 1, 1, 1⟩ ⟨1, 1, 1⟩
    (by decide +kernel)

/-- Outcomes at one second each. -/
def outcomes (successes failures : Nat) : List Operation :=
  List.replicate successes (.recordSuccess 5000000000) ++
    List.replicate failures (.recordFailure ⟨5000000000, 5000000000, 5000000000⟩)

end Gateway.Breaker
