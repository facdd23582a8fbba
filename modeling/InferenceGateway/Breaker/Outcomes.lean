import InferenceGateway.Arith.Rounding
import InferenceGateway.Breaker.Slots
import InferenceGateway.Breaker.Window

/-! What a breaker's buckets hold over any calls, what a closed one has recorded under a
clock that never goes back, and the rates it computes from its counts. -/
namespace Gateway.Breaker
open SlidingWindow (Tracks total)

variable {b : Breaker} {now : Int} {clock : Readings}

/-- The buckets are the whole ring, and count. -/
structure Sound (b : Breaker) : Prop where
  positive : 0 < b.windowSeconds
  size : b.buckets.length = b.windowSeconds.toNat
  counts : ∀ bk ∈ b.buckets, 0 ≤ bk.successes ∧ 0 ≤ bk.failures

theorem newBreaker_sound (providerName model : String) (cfg : Config) :
    (newBreaker providerName model cfg).Sound where
  positive := lt_of_lt_of_le one_pos (le_max_left 1 _)
  size := List.length_replicate
  counts := by
    intro bk member
    rw [List.eq_of_mem_replicate member]
    exact ⟨le_refl 0, le_refl 0⟩

/-- The bucket a second's outcomes go to. -/
def bucketOf (b : Breaker) (now : Int) : Bucket :=
  let current := b.buckets.getD (unix now % b.windowSeconds).toNat {}
  if current.unixSec ≠ unix now then { unixSec := unix now } else current

theorem Sound.bucketOf (h : b.Sound) (now : Int) :
    0 ≤ (b.bucketOf now).successes ∧ 0 ≤ (b.bucketOf now).failures := by
  unfold Breaker.bucketOf
  simp only
  split
  · exact ⟨le_refl 0, le_refl 0⟩
  · rw [List.getD_eq_getElem?_getD]
    cases found : b.buckets[(unix now % b.windowSeconds).toNat]? with
    | none => exact ⟨le_refl 0, le_refl 0⟩
    | some bk => exact h.counts bk (List.mem_of_getElem? found)

theorem Sound.record (h : b.Sound) (now : Int) (success : Bool) : (b.record now success).Sound where
  positive := h.positive
  size := by
    rw [Breaker.record, List.length_set]
    exact h.size
  counts := by
    intro bk member
    obtain ⟨won, lost⟩ := h.bucketOf now
    rcases List.mem_or_eq_of_mem_set member with old | rfl
    · exact h.counts bk old
    · cases success with
      | true => exact ⟨add_nonneg won one_pos.le, lost⟩
      | false => exact ⟨won, add_nonneg lost one_pos.le⟩

theorem Sound.resetWindow (h : b.Sound) : b.resetWindow.Sound where
  positive := h.positive
  size := (List.length_map _).trans h.size
  counts := by
    intro bk member
    obtain ⟨-, -, rfl⟩ := List.mem_map.mp member
    exact ⟨le_refl 0, le_refl 0⟩

/-- Allow touches neither the window nor the cooldown. -/
theorem allow_frame (b : Breaker) (now : Int) :
    (b.allow now).2.buckets = b.buckets ∧ (b.allow now).2.windowSeconds = b.windowSeconds ∧
      (b.allow now).2.curCooldown = b.curCooldown := by
  by_cases h : b.reopens now
  · simp only [allow, enterHalfOpen_of_reopens h]
    split <;> exact ⟨rfl, rfl, rfl⟩
  · simp only [allow, enterHalfOpen_of_not_reopens h]
    split
    · exact ⟨rfl, rfl, rfl⟩
    · split <;> exact ⟨rfl, rfl, rfl⟩
    · exact ⟨rfl, rfl, rfl⟩

/-- The breaker after a run of calls. -/
def runOps (b : Breaker) (ops : List Operation) : Breaker := ops.foldl (fun b op => (op.run b).2) b

theorem run_cfg (b : Breaker) (op : Operation) : (op.run b).2.cfg = b.cfg := by
  cases op with
  | allow now => exact allow_cfg
  | recordSuccess now => exact recordSuccess_cfg
  | recordFailure clock => exact recordFailure_cfg

theorem runOps_cfg (b : Breaker) (ops : List Operation) : (b.runOps ops).cfg = b.cfg := by
  induction ops generalizing b with
  | nil => rfl
  | cons op ops ih => exact (ih _).trans (run_cfg b op)

theorem runOps_append (b : Breaker) (first second : List Operation) :
    b.runOps (first ++ second) = (b.runOps first).runOps second := List.foldl_append

theorem run_windowSeconds (b : Breaker) (op : Operation) :
    (op.run b).2.windowSeconds = b.windowSeconds := by
  cases op with
  | allow now => exact (allow_frame b now).2.1
  | recordSuccess now =>
      simp only [Operation.run, Breaker.recordSuccess]
      split
      · split <;> rfl
      · rfl
      · rfl
  | recordFailure clock =>
      simp only [Operation.run, Breaker.recordFailure]
      split
      · rfl
      · split <;> rfl
      · rfl

theorem runOps_windowSeconds (b : Breaker) (ops : List Operation) :
    (b.runOps ops).windowSeconds = b.windowSeconds := by
  induction ops generalizing b with
  | nil => rfl
  | cons op ops ih => exact (ih _).trans (run_windowSeconds b op)

theorem Sound.run (h : b.Sound) (op : Operation) : (op.run b).2.Sound := by
  cases op with
  | allow now =>
      obtain ⟨buckets, seconds, -⟩ := allow_frame b now
      constructor
      · exact seconds ▸ h.positive
      · change (b.allow now).2.buckets.length = (b.allow now).2.windowSeconds.toNat
        rw [buckets, seconds]
        exact h.size
      · intro bk member
        exact h.counts bk (buckets ▸ member)
  | recordSuccess now =>
      simp only [Operation.run, Breaker.recordSuccess]
      split
      · split
        · exact Sound.resetWindow ⟨h.positive, h.size, h.counts⟩
        · exact ⟨h.positive, h.size, h.counts⟩
      · exact h.record now true
      · exact h
  | recordFailure clock =>
      have recorded := h.record clock.recordedAt false
      simp only [Operation.run, Breaker.recordFailure]
      split
      · exact ⟨h.positive, h.size, h.counts⟩
      · split
        · exact ⟨recorded.positive, recorded.size, recorded.counts⟩
        · exact recorded
      · exact h

theorem Sound.contribution (h : b.Sound) {n now : Int} {slot : SlidingWindow.Slot (Int × Int)}
    (member : slot ∈ b.ring) : 0 ≤ slot.contribution n now := by
  obtain ⟨bk, among, rfl⟩ := List.mem_map.mp member
  unfold SlidingWindow.Slot.contribution
  split
  · exact ⟨(h.counts bk among).1, (h.counts bk among).2⟩
  · exact le_refl 0

/-- Failures are some of the outcomes. -/
theorem Sound.windowCounts (h : b.Sound) (now : Int) :
    0 ≤ (b.windowCounts now).2 ∧ (b.windowCounts now).2 ≤ (b.windowCounts now).1 := by
  have sum : 0 ≤ total b.windowSeconds (unix now) b.ring := by
    apply List.sum_nonneg
    intro x member
    obtain ⟨slot, among, rfl⟩ := List.mem_map.mp member
    exact h.contribution among
  rw [windowCounts_ring]
  have won := sum.1
  have lost := sum.2
  simp only [Prod.fst_zero, Prod.snd_zero] at won lost
  exact ⟨lost, by simpa using won⟩

/-- A success just recorded is in the window. -/
theorem Sound.record_success (h : b.Sound) (now : Int) :
    ((b.record now true).windowCounts now).2 < ((b.record now true).windowCounts now).1 := by
  have bound : (unix now % b.windowSeconds).toNat < b.buckets.length :=
    h.size ▸ SlidingWindow.index_lt h.positive (unix now)
  let counted : Bucket := { b.bucketOf now with successes := (b.bucketOf now).successes + 1 }
  have member : counted.slot ∈ (b.record now true).ring :=
    List.mem_map_of_mem (List.mem_set bound counted)
  have current : counted.unixSec = unix now := by
    change (b.bucketOf now).unixSec = unix now
    unfold Breaker.bucketOf
    simp only
    split
    · rfl
    · rename_i same
      exact not_not.mp same
  have inside : SlidingWindow.Within b.windowSeconds (unix now) counted.slot.tick := by
    change SlidingWindow.Within b.windowSeconds (unix now) counted.unixSec
    rw [current]
    exact ⟨by omega, by have := h.positive; omega⟩
  have covered : counted.slot.contribution b.windowSeconds (unix now) ≤
      total b.windowSeconds (unix now) (b.record now true).ring := by
    apply List.single_le_sum
    · intro x among
      obtain ⟨slot, inRing, rfl⟩ := List.mem_map.mp among
      exact (h.record now true).contribution inRing
    · exact List.mem_map_of_mem member
  rw [SlidingWindow.Slot.contribution, if_pos inside] at covered
  have won : (b.bucketOf now).successes + 1 ≤
      (total b.windowSeconds (unix now) (b.record now true).ring).1 := covered.1
  have some : 0 < (total b.windowSeconds (unix now) (b.record now true).ring).1 :=
    (Int.lt_add_one_of_le (h.bucketOf now).1).trans_le won
  rw [windowCounts_ring]
  exact lt_add_of_pos_left _ some

theorem resetWindow_counts (b : Breaker) (now : Int) : b.resetWindow.windowCounts now = (0, 0) := by
  have empty : ∀ slot ∈ b.resetWindow.ring, slot.contribution b.windowSeconds (unix now) = 0 := by
    intro slot member
    simp only [ring, resetWindow, List.map_map] at member
    obtain ⟨bk, -, rfl⟩ := List.mem_map.mp member
    unfold SlidingWindow.Slot.contribution
    split <;> rfl
  have none : total b.resetWindow.windowSeconds (unix now) b.resetWindow.ring = 0 := by
    apply List.sum_eq_zero
    intro x member
    obtain ⟨slot, among, rfl⟩ := List.mem_map.mp member
    exact empty slot among
  rw [windowCounts_ring, none]
  rfl

section Rate

theorem errorRate_pos {failures total : Int} (positive : 0 < total) :
    errorRate failures total =
      .finite (Binary64.div (Binary64.round failures) (Binary64.round total)) := if_neg positive.ne'

theorem round_int_pos {n : Int} (positive : 0 < n) : 1 ≤ Binary64.round n := by
  rw [← Binary64.round_one]
  exact Binary64.round_mono one_pos.le (by exact_mod_cast positive)

theorem errorRate_self {n : Int} (positive : 0 < n) : errorRate n n = .finite 1 := by
  have := round_int_pos positive
  rw [errorRate_pos positive, Binary64.div, div_self (by linarith), Binary64.round_one]

/-- More failures among fewer outcomes are no smaller a rate, in float64 too. -/
theorem errorRate_mono {f f' t t' : Int} (nonneg : 0 ≤ f) (more : f ≤ f') (positive : 0 < t')
    (fewer : t' ≤ t) :
    Binary64.div (Binary64.round f) (Binary64.round t) ≤
      Binary64.div (Binary64.round f') (Binary64.round t') := by
  have low : 0 ≤ Binary64.round f := Binary64.round_nonneg (by exact_mod_cast nonneg)
  have up : Binary64.round f ≤ Binary64.round f' :=
    Binary64.round_mono (by exact_mod_cast nonneg) (by exact_mod_cast more)
  have small := round_int_pos positive
  have large : Binary64.round t' ≤ Binary64.round t :=
    Binary64.round_mono (by exact_mod_cast positive.le) (by exact_mod_cast fewer)
  apply Binary64.round_mono (div_nonneg low (by linarith))
  exact div_le_div₀ (low.trans up) up (by linarith) large

theorem floatTrips_iff {cfg : Config} {total failures : Int} :
    floatTrips cfg total failures = true ↔
      cfg.minRequests ≤ total ∧ cfg.errorRateThreshold.le (errorRate failures total) = true := by
  unfold floatTrips
  split
  · rename_i few
    exact iff_of_false (by simp) fun both => absurd both.1 (not_le.mpr few)
  · rename_i enough
    exact (and_iff_right (not_lt.mp enough)).symm

theorem shouldTrip_eq (b : Breaker) (now : Int) :
    b.shouldTrip now = floatTrips b.cfg (b.windowCounts now).1 (b.windowCounts now).2 := rfl

end Rate

/-- The outcomes of the window that ends at `now`. -/
def inWindow (seconds now : Int) (pairs : List (Int × Bool)) : List (Int × Bool) :=
  pairs.filter fun pair => unix now - seconds < pair.1

@[simp] theorem inWindow_append (seconds now : Int) (ps qs : List (Int × Bool)) :
    inWindow seconds now (ps ++ qs) = inWindow seconds now ps ++ inWindow seconds now qs :=
  List.filter_append ps qs

theorem inWindow_replicate (seconds now : Int) (n : ℕ) (pair : Int × Bool) :
    inWindow seconds now (List.replicate n pair) =
      if unix now - seconds < pair.1 then List.replicate n pair else [] := by
  simp [inWindow, List.filter_replicate]

theorem failures_append (ps qs : List (Int × Bool)) :
    Ideal.failures (ps ++ qs) = Ideal.failures ps + Ideal.failures qs := List.countP_append

theorem failures_replicate (n : ℕ) (t : Int) (success : Bool) :
    Ideal.failures (List.replicate n (t, success)) = if success then 0 else n := by
  cases success <;> simp [Ideal.failures, List.countP_replicate]

/-- A closed breaker whose ring counts the pairs. -/
structure Logged (b : Breaker) (pairs : List (Int × Bool)) : Prop where
  state : b.state = .closed
  positive : 0 < b.windowSeconds
  tracks : Tracks b.windowSeconds b.ring (logOf pairs)

variable {pairs : List (Int × Bool)}

theorem newBreaker_logged (providerName model : String) (cfg : Config) :
    Logged (newBreaker providerName model cfg) [] where
  state := rfl
  positive := lt_of_lt_of_le one_pos (le_max_left 1 _)
  tracks := newBreaker_tracks providerName model cfg

/-- A pair no later than `t` joins pairs that are not. -/
theorem latest_append {s t : Int} (order : ∀ pair ∈ pairs, pair.1 ≤ t) (le : s ≤ t) (success : Bool) :
    ∀ pair ∈ pairs ++ [(s, success)], pair.1 ≤ t := by
  intro pair member
  rcases List.mem_append.mp member with old | new
  · exact order pair old
  · rw [List.mem_singleton.mp new]
    exact le

theorem Logged.counts (h : Logged b pairs) (latest : ∀ pair ∈ pairs, pair.1 ≤ unix now) :
    b.windowCounts now = (((inWindow b.windowSeconds now pairs).length : Int),
      (Ideal.failures (inWindow b.windowSeconds now pairs) : Int)) :=
  windowCounts_tracks h.tracks latest

theorem Logged.recordSuccess (h : Logged b pairs) (order : ∀ pair ∈ pairs, pair.1 ≤ unix now) :
    Logged (b.recordSuccess now) (pairs ++ [(unix now, true)]) := by
  simp only [Breaker.recordSuccess, h.state]
  exact ⟨h.state, h.positive, record_tracks h.positive h.tracks order true⟩

/-- A failure is logged, or opens the breaker if the window's counts tell it to. -/
theorem Logged.recordFailure (h : Logged b pairs) (ordered : clock.recordedAt ≤ clock.trippedAt)
    (order : ∀ pair ∈ pairs, pair.1 ≤ unix clock.recordedAt) :
    let logged := pairs ++ [(unix clock.recordedAt, false)]
    let inside := inWindow b.windowSeconds clock.trippedAt logged
    (floatTrips b.cfg inside.length (Ideal.failures inside) = false →
        Logged (b.recordFailure clock) logged) ∧
      (floatTrips b.cfg inside.length (Ideal.failures inside) = true →
        b.recordFailure clock = { b.record clock.recordedAt false with
          curCooldown := b.cfg.cooldown, state := .opened, openedAt := clock.openedAt }) := by
  have recorded : Logged (b.record clock.recordedAt false) (pairs ++ [(unix clock.recordedAt, false)]) :=
    ⟨h.state, h.positive, record_tracks h.positive h.tracks order false⟩
  have latest : ∀ pair ∈ pairs ++ [(unix clock.recordedAt, false)], pair.1 ≤ unix clock.trippedAt :=
    latest_append (fun pair old => (order pair old).trans (unix_mono ordered)) (unix_mono ordered) false
  have decided := shouldTrip_eq (b.record clock.recordedAt false) clock.trippedAt
  rw [recorded.counts latest] at decided
  simp only [Breaker.recordFailure, h.state]
  constructor
  · intro stays
    rw [if_neg (by rw [decided]; exact Bool.eq_false_iff.mp stays)]
    exact recorded
  · intro trips
    rw [if_pos (by rw [decided]; exact trips)]
    rfl

/-- Successes are logged one by one. -/
theorem Logged.successes (h : Logged b pairs) (order : ∀ pair ∈ pairs, pair.1 ≤ unix now) (n : ℕ) :
    Logged (b.runOps (List.replicate n (.recordSuccess now)))
      (pairs ++ List.replicate n (unix now, true)) := by
  induction n generalizing b pairs with
  | zero =>
      simp only [List.replicate_zero, List.append_nil]
      exact h
  | succ n ih =>
      have next := ih (h.recordSuccess order) (latest_append order le_rfl true)
      rw [List.append_assoc, List.singleton_append] at next
      exact next

/-- Failures are logged one by one as long as none of them opens the breaker. -/
theorem Logged.failures (h : Logged b pairs) (ordered : clock.recordedAt ≤ clock.trippedAt)
    (order : ∀ pair ∈ pairs, pair.1 ≤ unix clock.recordedAt) (n : ℕ)
    (stays : ∀ j < n, floatTrips b.cfg
      (inWindow b.windowSeconds clock.trippedAt
        (pairs ++ List.replicate (j + 1) (unix clock.recordedAt, false))).length
      (Ideal.failures (inWindow b.windowSeconds clock.trippedAt
        (pairs ++ List.replicate (j + 1) (unix clock.recordedAt, false)))) = false) :
    Logged (b.runOps (List.replicate n (.recordFailure clock)))
      (pairs ++ List.replicate n (unix clock.recordedAt, false)) := by
  induction n generalizing b pairs with
  | zero =>
      simp only [List.replicate_zero, List.append_nil]
      exact h
  | succ n ih =>
      have first := (h.recordFailure ordered order).1 (stays 0 (by omega))
      have next := ih first (latest_append order le_rfl false) (by
        intro j lt
        have later := stays (j + 1) (by omega)
        rw [List.append_assoc, List.singleton_append, ← List.replicate_succ]
        rw [show (b.recordFailure clock).cfg = b.cfg from recordFailure_cfg,
          show (b.recordFailure clock).windowSeconds = b.windowSeconds from
            run_windowSeconds b (.recordFailure clock)]
        exact later)
      rw [List.append_assoc, List.singleton_append] at next
      exact next

end Gateway.Breaker
