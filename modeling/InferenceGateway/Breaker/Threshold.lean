import InferenceGateway.Breaker.Outcomes
import InferenceGateway.Config.Config

/-! Whether a closed breaker can be over its trip threshold. Only RecordFailure tests it, but
a success adds the volume the test asks for, and is often the first call to find that older
successes have left the window. -/
namespace Gateway.Breaker

/-- Counts at or above both thresholds, by the exact rate. -/
def atThreshold (cfg : Config) (total failures : Int) : Bool :=
  decide (cfg.minRequests ≤ total) && cfg.errorRateThreshold.le (.finite ((failures : ℚ) / total))

/-- The reading at which a recording call last looks at the window. -/
def Operation.settledAt : Operation → Option Int
  | .allow _ => none
  | .recordSuccess now => some now
  | .recordFailure clock => some clock.trippedAt

/-- The window of a breaker is over the threshold. -/
def OverThreshold (b : Breaker) (now : Int) : Prop :=
  atThreshold b.cfg (b.windowCounts now).1 (b.windowCounts now).2 = true

/-- After every recording call of a run, a closed breaker is not over its threshold. -/
def KeptBelow (b : Breaker) : List Operation → Prop
  | [] => True
  | op :: ops =>
      (∀ now, op.settledAt = some now → (op.run b).2.state = .closed → ¬ (op.run b).2.OverThreshold now) ∧
        KeptBelow (op.run b).2 ops

variable {b : Breaker} {now : Int} {clock : Readings} {ops : List Operation}

theorem KeptBelow.last {op : Operation} (h : b.KeptBelow (ops ++ [op])) (settled : op.settledAt = some now)
    (closed : (op.run (b.runOps ops)).2.state = .closed) : ¬ (op.run (b.runOps ops)).2.OverThreshold now := by
  induction ops generalizing b with
  | nil => exact h.1 now settled closed
  | cons first ops ih => exact ih h.2 closed

theorem atThreshold_iff {cfg : Config} {q : ℚ} {total failures : Int}
    (threshold : cfg.errorRateThreshold = .finite q) :
    atThreshold cfg total failures = true ↔ cfg.minRequests ≤ total ∧ q ≤ failures / total := by
  simp [atThreshold, threshold, Binary64.Value.le]

/-- How a success can leave a breaker closed. -/
theorem recordSuccess_closed (closed : (b.recordSuccess now).state = .closed) :
    b.recordSuccess now = b.record now true ∨ ∃ before : Breaker, b.recordSuccess now = before.resetWindow := by
  unfold recordSuccess at closed ⊢
  cases state : b.state with
  | closed => exact .inl rfl
  | opened =>
      simp only [state] at closed
      cases closed
  | halfOpen =>
      simp only [state] at closed ⊢
      split at closed
      · rename_i enough
        rw [if_pos enough]
        exact .inr ⟨_, rfl⟩
      · cases closed

/-- A failure leaves a breaker closed only where shouldTrip says no. -/
theorem recordFailure_closed (closed : (b.recordFailure clock).state = .closed) :
    b.recordFailure clock = b.record clock.recordedAt false ∧
      (b.record clock.recordedAt false).shouldTrip clock.trippedAt = false := by
  unfold recordFailure at closed ⊢
  cases state : b.state with
  | halfOpen =>
      simp only [state] at closed
      cases closed
  | opened =>
      simp only [state] at closed
      cases closed
  | closed =>
      simp only [state] at closed ⊢
      cases trips : (b.record clock.recordedAt false).shouldTrip clock.trippedAt with
      | true =>
          rw [trips, if_pos rfl] at closed
          cases closed
      | false => exact ⟨rfl, rfl⟩

section One
variable (requests : 1 ≤ b.cfg.minRequests) (one : b.cfg.errorRateThreshold = .finite 1)
include requests one

/-- Over a threshold of 1 there are only failures, and enough of them. -/
theorem OverThreshold.all_failures (h : b.OverThreshold now) :
    b.cfg.minRequests ≤ (b.windowCounts now).1 ∧ (b.windowCounts now).1 ≤ (b.windowCounts now).2 := by
  obtain ⟨volume, rate⟩ := (atThreshold_iff one).mp h
  have positive : (0 : ℚ) < (b.windowCounts now).1 := by
    exact_mod_cast lt_of_lt_of_le one_pos (requests.trans volume)
  rw [le_div_iff₀ positive, one_mul, Int.cast_le] at rate
  exact ⟨volume, rate⟩

theorem recordSuccess_below (sound : b.Sound) (closed : (b.recordSuccess now).state = .closed) :
    ¬ (b.recordSuccess now).OverThreshold now := by
  intro above
  have cfg : (b.recordSuccess now).cfg = b.cfg := recordSuccess_cfg
  obtain ⟨volume, only⟩ := above.all_failures (cfg ▸ requests) (cfg ▸ one)
  rcases recordSuccess_closed closed with recorded | ⟨before, reset⟩
  · rw [recorded] at only
    exact absurd only (not_le.mpr (sound.record_success now))
  · rw [cfg, reset, resetWindow_counts] at volume
    omega

theorem recordFailure_below (sound : b.Sound) (closed : (b.recordFailure clock).state = .closed) :
    ¬ (b.recordFailure clock).OverThreshold clock.trippedAt := by
  intro above
  obtain ⟨recorded, stays⟩ := recordFailure_closed closed
  rw [recorded] at above
  have cfg : (b.record clock.recordedAt false).cfg = b.cfg := rfl
  obtain ⟨volume, only⟩ := above.all_failures (cfg ▸ requests) (cfg ▸ one)
  have all := le_antisymm ((sound.record clock.recordedAt false).windowCounts clock.trippedAt).2 only
  have trips : (b.record clock.recordedAt false).shouldTrip clock.trippedAt = true := by
    rw [shouldTrip_eq, floatTrips_iff]
    refine ⟨volume, ?_⟩
    rw [all, errorRate_self (lt_of_lt_of_le one_pos (requests.trans volume))]
    change b.cfg.errorRateThreshold.le _ = true
    rw [one]
    exact Binary64.Value.le_self (by simp)
  rw [trips] at stays
  cases stays

/-- With a threshold of 1 one success in the window is enough to stay below it. -/
theorem keptBelow_of_one (sound : b.Sound) (ops : List Operation) : b.KeptBelow ops := by
  induction ops generalizing b with
  | nil => trivial
  | cons op ops ih =>
      refine ⟨?_, ih (by rw [run_cfg]; exact requests) (by rw [run_cfg]; exact one) (sound.run op)⟩
      intro now settled closed
      cases op with
      | allow _ => cases settled
      | recordSuccess _ =>
          cases settled
          exact recordSuccess_below requests one sound closed
      | recordFailure clock =>
          cases settled
          exact recordFailure_below requests one sound closed

end One

theorem keptBelow_of_nan (never : b.cfg.errorRateThreshold = .nan) (ops : List Operation) :
    b.KeptBelow ops := by
  induction ops generalizing b with
  | nil => trivial
  | cons op ops ih =>
      refine ⟨?_, ih (by rw [run_cfg]; exact never)⟩
      intro now _ _ above
      unfold OverThreshold atThreshold at above
      rw [run_cfg, never, Bool.and_eq_true] at above
      exact absurd above.2 (by simp [Binary64.Value.le])

/-- A success after which the logged window is over the threshold. -/
theorem Logged.violates {pairs : List (Int × Bool)} (h : Logged (b.runOps ops) pairs)
    (order : ∀ pair ∈ pairs, pair.1 ≤ unix now)
    (above : atThreshold b.cfg (inWindow b.windowSeconds now (pairs ++ [(unix now, true)])).length
      (Ideal.failures (inWindow b.windowSeconds now (pairs ++ [(unix now, true)]))) = true) :
    ¬ b.KeptBelow (ops ++ [.recordSuccess now]) := by
  intro kept
  have recorded := h.recordSuccess order
  have latest := latest_append order le_rfl true
  apply kept.last rfl recorded.state
  have counts := recorded.counts latest
  have seconds : ((b.runOps ops).recordSuccess now).windowSeconds = b.windowSeconds :=
    (run_windowSeconds _ (.recordSuccess now)).trans (runOps_windowSeconds b ops)
  have cfg : ((b.runOps ops).recordSuccess now).cfg = b.cfg := recordSuccess_cfg.trans (runOps_cfg b ops)
  rw [seconds] at counts
  change atThreshold ((b.runOps ops).recordSuccess now).cfg _ _ = true
  rw [cfg]
  change atThreshold b.cfg (((b.runOps ops).recordSuccess now).windowCounts now).1
    (((b.runOps ops).recordSuccess now).windowCounts now).2 = true
  rw [counts]
  exact above

/-- The same where all but some failures have left the window. -/
theorem Logged.violates_of_failures {old : List (Int × Bool)} {n : ℕ} {t : Int}
    (h : Logged (b.runOps ops) (old ++ List.replicate n (t, false)))
    (left : ∀ pair ∈ old, pair.1 ≤ unix now - b.windowSeconds)
    (inside : unix now - b.windowSeconds < t) (order : t ≤ unix now)
    (above : atThreshold b.cfg (n + 1) n = true) : ¬ b.KeptBelow (ops ++ [.recordSuccess now]) := by
  have positive : 0 < b.windowSeconds := by
    rw [← runOps_windowSeconds b ops]
    exact h.positive
  apply h.violates
  · intro pair member
    rcases List.mem_append.mp member with past | failed
    · exact (left pair past).trans (by omega)
    · rw [List.eq_of_mem_replicate failed]
      exact order
  · have gone : inWindow b.windowSeconds now old = [] := by
      apply List.filter_eq_nil_iff.mpr
      intro pair member
      simpa using left pair member
    have last : inWindow b.windowSeconds now [(unix now, true)] = [(unix now, true)] := by
      apply List.filter_eq_self.mpr
      intro pair member
      rw [List.mem_singleton.mp member]
      exact decide_eq_true (by omega)
    rw [inWindow_append, inWindow_append, gone, last, inWindow_replicate, if_pos inside, List.nil_append,
      failures_append, failures_replicate, List.length_append, List.length_replicate]
    exact above

theorem floatTrips_of_few {cfg : Config} {total failures : Int} (few : total < cfg.minRequests) :
    floatTrips cfg total failures = false := if_pos few

section Runs
variable (providerName model : String) (cfg : Config)

/-- Failures that the check of each of them does not count, or counts as too few, and a
success in their second. -/
theorem failures_then_success {late : Int} (n : ℕ) (ordered : 0 ≤ late)
    (counted : unix late - (newBreaker providerName model cfg).windowSeconds < 0 → (n : Int) < cfg.minRequests)
    (requests : 1 ≤ cfg.minRequests) (above : atThreshold cfg (n + 1) n = true) :
    ¬ (newBreaker providerName model cfg).KeptBelow
      (List.replicate n (.recordFailure ⟨0, late, late⟩) ++ [.recordSuccess 0]) := by
  have start := newBreaker_logged providerName model cfg
  have logged : Logged (runOps _ (List.replicate n (.recordFailure ⟨0, late, late⟩))) _ :=
      start.failures ordered (by simp) n (by
    intro j lt
    apply floatTrips_of_few
    rw [List.nil_append, inWindow_replicate]
    split
    · rename_i inside
      rw [List.length_replicate]
      have few := counted inside
      change ((j + 1 : ℕ) : Int) < cfg.minRequests
      omega
    · exact requests)
  have positive := start.positive
  exact logged.violates_of_failures (by simp) (by change unix 0 - _ < unix 0; omega) le_rfl above

/-- Successes that keep the rate low until they leave the window, and a success that finds
them gone. -/
theorem failures_outlive_successes {q : ℚ} {k n : ℕ}
    (several : 1 < (newBreaker providerName model cfg).windowSeconds)
    (threshold : cfg.errorRateThreshold = .finite q) (positive : 0 < k)
    (low : Binary64.div (Binary64.round n) (Binary64.round k) < q)
    (above : atThreshold cfg (n + 1) n = true) :
    ¬ (newBreaker providerName model cfg).KeptBelow
      (List.replicate k (.recordSuccess 0) ++
        List.replicate n (.recordFailure ⟨1000000000, 1000000000, 1000000000⟩) ++
        [.recordSuccess ((newBreaker providerName model cfg).windowSeconds * 1000000000)]) := by
  have first : Logged (runOps _ (List.replicate k (.recordSuccess 0))) _ :=
    (newBreaker_logged providerName model cfg).successes (by simp) k
  have seconds : ∀ ws : Int, unix (ws * 1000000000) = ws := fun ws => Int.mul_ediv_cancel ws (by decide)
  rw [List.nil_append] at first
  have logged : Logged (runOps _ (List.replicate n
      (.recordFailure ⟨1000000000, 1000000000, 1000000000⟩))) _ := first.failures le_rfl (by
    intro pair member
    rw [List.eq_of_mem_replicate member]
    decide) n (by
    intro j lt
    rw [runOps_windowSeconds, runOps_cfg, inWindow_append, inWindow_replicate, inWindow_replicate,
      if_pos (by change 1 - _ < (0 : Int); omega), if_pos (by change (1 : Int) - _ < 1; omega),
      failures_append, failures_replicate, failures_replicate, List.length_append, List.length_replicate,
      List.length_replicate]
    rw [Bool.eq_false_iff, Ne, floatTrips_iff, errorRate_pos (by positivity)]
    rintro ⟨-, reached⟩
    change cfg.errorRateThreshold.le _ = true at reached
    rw [threshold] at reached
    have capped : Binary64.div (Binary64.round (j + 1 : ℕ)) (Binary64.round (k + (j + 1) : ℕ)) ≤
        Binary64.div (Binary64.round n) (Binary64.round k) := by
      have fewer : (k : Int) ≤ (k + (j + 1) : ℕ) := by omega
      exact errorRate_mono (by omega) (by omega : ((j + 1 : ℕ) : Int) ≤ n) (by omega) fewer
    simp only [Binary64.Value.le, decide_eq_true_eq] at reached
    simp only [Bool.false_eq_true, if_true, if_false, zero_add, Int.cast_natCast] at reached
    exact absurd (reached.trans capped) (not_le.mpr low))
  rw [← runOps_append] at logged
  refine logged.violates_of_failures ?_ ?_ ?_ above
  · intro pair member
    rw [List.eq_of_mem_replicate member, seconds]
    exact le_of_eq (sub_self _).symm
  · rw [seconds, sub_self]
    decide
  · rw [seconds]
    exact several.le

end Runs

/-- Enough failures put a single success over any threshold below 1. -/
theorem exists_atThreshold {cfg : Config} {q : ℚ} (threshold : cfg.errorRateThreshold = .finite q)
    (below : q < 1) :
    ∃ n : ℕ, atThreshold cfg (n + 1) n = true := by
  obtain ⟨m, large⟩ := exists_nat_ge (1 / (1 - q))
  refine ⟨max m cfg.minRequests.toNat, (atThreshold_iff threshold).mpr ⟨by omega, ?_⟩⟩
  have gap : 0 < 1 - q := by linarith
  have enough : 1 ≤ ((max m cfg.minRequests.toNat : ℕ) : ℚ) * (1 - q) := by
    rw [← div_le_iff₀ gap]
    exact large.trans (by exact_mod_cast le_max_left m _)
  push_cast at enough ⊢
  rw [le_div_iff₀ (by positivity)]
  linarith

/-- Enough successes bring any number of failures below any positive rate. -/
theorem exists_low_rate {q : ℚ} (positive : 0 < q) (n : ℕ) :
    ∃ k : ℕ, 0 < k ∧ Binary64.div (Binary64.round n) (Binary64.round k) < q := by
  obtain ⟨e, small⟩ := exists_pow_lt_of_lt_one positive (by norm_num : (1 / 2 : ℚ) < 1)
  refine ⟨2 ^ (n + e), by positivity, lt_of_le_of_lt ?_ small⟩
  have power : Binary64.round ((2 ^ (n + e) : ℕ) : ℚ) = 2 ^ (n + e) := by
    push_cast
    exact Binary64.round_two_pow (n + e)
  have most : Binary64.round n ≤ 2 ^ n := by
    rw [← Binary64.round_two_pow n]
    exact Binary64.round_mono (Nat.cast_nonneg n) (by exact_mod_cast Nat.lt_two_pow_self.le)
  have least : 0 ≤ Binary64.round n := Binary64.round_nonneg (Nat.cast_nonneg n)
  rw [power]
  calc Binary64.div (Binary64.round n) (2 ^ (n + e))
      ≤ Binary64.round ((1 / 2) ^ e) := by
        apply Binary64.round_mono (by positivity)
        rw [div_le_iff₀ (by positivity), pow_add, one_div_pow]
        field_simp
        exact most
    _ = (1 / 2) ^ e := Binary64.round_half_pow e

/-- Calls that each read one time, in the order of those times. -/
theorem readings_replicate {op : Operation} {t : Int} (steady : ∀ r ∈ op.readings, r = t) (n : ℕ) :
    ∀ r ∈ (List.replicate n op).flatMap Operation.readings, r = t := by
  intro r member
  obtain ⟨o, among, reading⟩ := List.mem_flatMap.mp member
  rw [List.eq_of_mem_replicate among] at reading
  exact steady r reading

theorem pairwise_of_constant {readings : List Int} {t : Int} (constant : ∀ r ∈ readings, r = t) :
    readings.Pairwise (· ≤ ·) := by
  apply List.pairwise_of_forall_mem_list
  intro x first y second
  rw [constant x first, constant y second]

/-- One step of the clock, from one second to a later one. -/
theorem pairwise_append_constant {first second : List Int} {t : Int} (ordered : first.Pairwise (· ≤ ·))
    (before : ∀ r ∈ first, r ≤ t) (constant : ∀ r ∈ second, r = t) : (first ++ second).Pairwise (· ≤ ·) := by
  refine List.pairwise_append.mpr ⟨ordered, pairwise_of_constant constant, ?_⟩
  intro x early y late
  rw [constant y late]
  exact before x early

section Violations
variable (providerName model : String) {cfg : Config} {q : ℚ} (requests : 1 ≤ cfg.minRequests)
  (threshold : cfg.errorRateThreshold = .finite q) (below : q < 1)

include requests threshold below in
/-- Each failure is checked when the window has moved past it. -/
theorem exists_violation : ∃ ops, ¬ (newBreaker providerName model cfg).KeptBelow ops := by
  obtain ⟨n, above⟩ := exists_atThreshold threshold below
  let ws := (newBreaker providerName model cfg).windowSeconds
  have positive : 0 < ws := (newBreaker_sound providerName model cfg).positive
  refine ⟨_, failures_then_success providerName model cfg n (by omega : 0 ≤ ws * 1000000000) ?_ requests above⟩
  intro inside
  have moved : unix (ws * 1000000000) = ws := Int.mul_ediv_cancel ws (by decide)
  rw [moved] at inside
  exact absurd inside (by omega)

include requests in
/-- The success is the request that makes the volume. -/
theorem exists_ordered_violation_of_volume
    (above : atThreshold cfg cfg.minRequests (cfg.minRequests - 1) = true) :
    ∃ ops, (ops.flatMap Operation.readings).Pairwise (· ≤ ·) ∧
      ¬ (newBreaker providerName model cfg).KeptBelow ops := by
  obtain ⟨n, size⟩ := Int.eq_ofNat_of_zero_le (by omega : 0 ≤ cfg.minRequests - 1)
  refine ⟨_, ?_, failures_then_success providerName model cfg n le_rfl (by omega) requests ?_⟩
  · rw [List.flatMap_append]
    have constant : ∀ r ∈ (List.replicate n (.recordFailure ⟨0, 0, 0⟩)).flatMap Operation.readings, r = 0 :=
      readings_replicate (by simp [Operation.readings]) n
    exact pairwise_append_constant (pairwise_of_constant constant) (fun r member => (constant r member).le)
      (by simp [Operation.readings])
  · rw [← size, sub_add_cancel]
    exact above

include threshold below in
/-- The successes leave the window before the failures do. -/
theorem exists_ordered_violation_of_window (positive : 0 < q)
    (several : 1 < (newBreaker providerName model cfg).windowSeconds) :
    ∃ ops, (ops.flatMap Operation.readings).Pairwise (· ≤ ·) ∧
      ¬ (newBreaker providerName model cfg).KeptBelow ops := by
  obtain ⟨n, above⟩ := exists_atThreshold threshold below
  obtain ⟨k, some, low⟩ := exists_low_rate positive n
  refine ⟨_, ?_, failures_outlive_successes providerName model cfg several threshold some low above⟩
  have early : ∀ r ∈ (List.replicate k (.recordSuccess 0)).flatMap Operation.readings, r = 0 :=
    readings_replicate (by simp [Operation.readings]) k
  have later : ∀ r ∈ (List.replicate n (.recordFailure ⟨1000000000, 1000000000, 1000000000⟩)).flatMap
      Operation.readings, r = 1000000000 := readings_replicate (by simp [Operation.readings]) n
  rw [List.flatMap_append, List.flatMap_append]
  have last : ∀ r ∈ [Operation.recordSuccess ((newBreaker providerName model cfg).windowSeconds *
      1000000000)].flatMap Operation.readings,
      r = (newBreaker providerName model cfg).windowSeconds * 1000000000 := by simp [Operation.readings]
  refine pairwise_append_constant (pairwise_append_constant (pairwise_of_constant early) ?_ later) ?_ last
  · intro r member
    rw [early r member]
    decide
  · intro r member
    rcases List.mem_append.mp member with success | failure
    · rw [early r success]
      omega
    · rw [later r failure]
      omega

end Violations

/-- A closed breaker of an accepted configuration stays below its threshold exactly where
the threshold is 1, or is not a number and never trips. Any other one is exceeded in some run,
and in one whose clock never goes back if the window has more than one second or the last
request of the volume may be a success. -/
theorem closed_below_threshold_iff {isPrint : Char → Bool} (cfg : Gateway.Config.Accepted isPrint)
    (providerName model : String) :
    let b := newBreaker providerName model cfg.breakerConfig
    let threshold := cfg.breakerConfig.errorRateThreshold
    let requests := cfg.breakerConfig.minRequests
    ((∀ ops, b.KeptBelow ops) ↔ threshold = .nan ∨ threshold = .finite 1) ∧
      (threshold ≠ .nan → threshold ≠ .finite 1 →
        1 < b.windowSeconds ∨ atThreshold cfg.breakerConfig requests (requests - 1) = true →
        ∃ ops, (ops.flatMap Operation.readings).Pairwise (· ≤ ·) ∧ ¬ b.KeptBelow ops) := by
  intro b threshold requests
  have volume := cfg.minRequests_pos
  rcases cfg.threshold_cases with never | ⟨q, rate, positive, most⟩
  · refine ⟨iff_of_true (keptBelow_of_nan never) (.inl never), ?_⟩
    intro number
    exact absurd never number
  · rcases most.eq_or_lt with rfl | below
    · have sound := newBreaker_sound providerName model cfg.breakerConfig
      refine ⟨iff_of_true (keptBelow_of_one volume rate sound) (.inr rate), ?_⟩
      intro _ notOne
      exact absurd rate notOne
    · constructor
      · refine iff_of_false ?_ ?_
        · intro kept
          obtain ⟨ops, exceeded⟩ := exists_violation providerName model volume rate below
          exact exceeded (kept ops)
        · intro special
          rcases special with never | one
          · cases rate.symm.trans never
          · cases rate.symm.trans one
            exact absurd below (lt_irrefl 1)
      · rintro - - (several | last)
        · exact exists_ordered_violation_of_window providerName model rate below positive several
        · exact exists_ordered_violation_of_volume providerName model volume last

/-- A threshold of one half over two requests. -/
def halfOfTwo : Gateway.Config.Accepted (fun _ => true) :=
  .deployment ⟨.finite (1 / 2), 2, 10000000000, 30000000000, 300000000000, 1, 1⟩ ⟨1, 1, 1⟩ (by decide +kernel)

/-- After one failure and one success in the same second half of the two have failed, and the
breaker is closed. -/
theorem closed_at_one_half :
    let b := newBreaker "a" "m" halfOfTwo.breakerConfig
    let ops := [.recordFailure ⟨0, 0, 0⟩, .recordSuccess 0]
    (b.runOps ops).state = .closed ∧ (b.runOps ops).windowCounts 0 = (2, 1) ∧
      atThreshold halfOfTwo.breakerConfig 2 1 = true ∧ ¬ b.KeptBelow ops := by
  have closed : ((newBreaker "a" "m" halfOfTwo.breakerConfig).runOps
      [.recordFailure ⟨0, 0, 0⟩, .recordSuccess 0]).state = .closed := by decide +kernel
  have counts : ((newBreaker "a" "m" halfOfTwo.breakerConfig).runOps
      [.recordFailure ⟨0, 0, 0⟩, .recordSuccess 0]).windowCounts 0 = (2, 1) := by decide +kernel
  refine ⟨closed, counts, by decide +kernel, ?_⟩
  intro kept
  apply kept.2.1 0 rfl closed
  unfold OverThreshold
  decide +kernel

end Gateway.Breaker
