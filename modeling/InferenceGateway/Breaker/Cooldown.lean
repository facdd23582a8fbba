import InferenceGateway.Breaker.Outcomes

/-! How long a breaker stays open. The cooldown doubles in 64 bits at every return from
half-open to open before it is clamped, which a ceiling of 2^62 nanoseconds is too large
for. -/
namespace Gateway.Breaker
open Gateway.Providers (Duration)

/-- The HalfOpen to Open transitions since the last Closed to Open one, past one call. -/
def escalate (before after : State) (k : ℕ) : ℕ :=
  match before, after with
  | .closed, .opened => 0
  | .halfOpen, .opened => k + 1
  | _, _ => k

/-- The same past a run of calls. -/
def escalations (b : Breaker) (k : ℕ) : List Operation → ℕ
  | [] => k
  | op :: ops => escalations (op.run b).2 (escalate b.state (op.run b).2.state k) ops

/-- What one call can do to the state and the cooldown. -/
inductive Moves (cfg : Config) : State → Duration → State → Duration → Prop
  | stay (s : State) (d : Duration) : Moves cfg s d s d
  | probe (d : Duration) : Moves cfg .opened d .halfOpen d
  | close (d : Duration) : Moves cfg .halfOpen d .closed cfg.cooldown
  | reopen (d : Duration) : Moves cfg .halfOpen d .opened (min (d * 2) cfg.cooldownMax)
  | trip (d : Duration) : Moves cfg .closed d .opened cfg.cooldown

theorem Moves.of_eq {cfg : Config} {s s' : State} {d d' : Duration} (state : s' = s)
    (cooldown : d' = d) : Moves cfg s d s' d' := by
  rw [state, cooldown]
  exact .stay s d

theorem run_moves (b : Breaker) (op : Operation) :
    Moves b.cfg b.state b.curCooldown (op.run b).2.state (op.run b).2.curCooldown := by
  cases op with
  | allow now =>
      simp only [Operation.run, (allow_frame b now).2.2]
      rcases allow_cases b now with ⟨opened, half, -⟩ | ⟨same, -⟩
      · rw [opened, half]
        exact .probe _
      · rw [same]
        exact .stay _ _
  | recordSuccess now =>
      simp only [Operation.run, recordSuccess]
      cases state : b.state with
      | halfOpen =>
          simp only
          split
          · exact .close _
          · exact .stay _ _
      | closed => exact .of_eq state rfl
      | opened => exact .of_eq state rfl
  | recordFailure clock =>
      simp only [Operation.run, recordFailure]
      cases state : b.state with
      | halfOpen => exact .reopen _
      | closed =>
          simp only
          split
          · exact .trip _
          · exact .of_eq state rfl
      | opened => exact .of_eq state rfl

/-- The cooldown a breaker is to have: the configured one while closed, else doubled `k`
times up to the ceiling. -/
def Doubled (cfg : Config) (s : State) (d : Duration) (k : ℕ) : Prop :=
  if s = .closed then d = cfg.cooldown
  else d.toInt = min (cfg.cooldown.toInt * 2 ^ k) cfg.cooldownMax.toInt

theorem toInt_min (a b : Int64) : (min a b).toInt = min a.toInt b.toInt := by
  change (if a ≤ b then a else b).toInt = _
  split
  · rename_i below
    exact (min_eq_left (Int64.le_iff_toInt_le.mp below)).symm
  · rename_i above
    exact (min_eq_right (Int64.lt_iff_toInt_lt.mp (Int64.not_le.mp above)).le).symm

theorem toInt_double {d : Int64} (nonneg : 0 ≤ d.toInt) (small : d.toInt < 2 ^ 62) :
    (d * 2).toInt = d.toInt * 2 := by
  rw [Int64.toInt_mul, show (2 : Int64).toInt = 2 from rfl]
  apply Int.bmod_eq_of_le <;> omega

/-- Doubling once more, where the ceiling leaves room for it. -/
theorem toInt_reopened {cfg : Config} {d : Duration} {k : ℕ} (positive : 0 < cfg.cooldown.toInt)
    (order : cfg.cooldown.toInt ≤ cfg.cooldownMax.toInt) (room : cfg.cooldownMax.toInt < 2 ^ 62)
    (doubled : d.toInt = min (cfg.cooldown.toInt * 2 ^ k) cfg.cooldownMax.toInt) :
    (min (d * 2) cfg.cooldownMax).toInt =
      min (cfg.cooldown.toInt * 2 ^ (k + 1)) cfg.cooldownMax.toInt := by
  have grown : 0 < cfg.cooldown.toInt * 2 ^ k := by positivity
  rw [toInt_min, toInt_double (by omega) (by omega), doubled, pow_succ, ← mul_assoc]
  omega

section Room
variable {cfg : Config} (positive : 0 < cfg.cooldown.toInt)
  (order : cfg.cooldown.toInt ≤ cfg.cooldownMax.toInt) (room : cfg.cooldownMax.toInt < 2 ^ 62)
include positive order room

theorem Doubled.moves {s s' : State} {d d' : Duration} {k : ℕ} (h : Doubled cfg s d k)
    (moves : Moves cfg s d s' d') : Doubled cfg s' d' (escalate s s' k) := by
  cases moves with
  | stay =>
      cases s <;> exact h
  | probe => exact h
  | close => rfl
  | reopen => exact toInt_reopened positive order room h
  | trip =>
      change cfg.cooldown.toInt = min (cfg.cooldown.toInt * 2 ^ 0) cfg.cooldownMax.toInt
      rw [pow_zero, mul_one, min_eq_left order]

theorem Doubled.runOps {b : Breaker} {k : ℕ} (own : b.cfg = cfg) (h : Doubled cfg b.state b.curCooldown k)
    (ops : List Operation) :
    Doubled cfg (b.runOps ops).state (b.runOps ops).curCooldown (b.escalations k ops) := by
  induction ops generalizing b k with
  | nil => exact h
  | cons op ops ih =>
      exact ih ((run_cfg b op).trans own) (h.moves positive order room (own ▸ run_moves b op))

end Room

/-- The closed form: in open and half-open the cooldown is the configured one doubled `k`
times up to the ceiling, and in every state it lies between the two. -/
def CooldownForm (b : Breaker) (k : ℕ) : Prop :=
  (b.state ≠ .closed →
      b.curCooldown.toInt = min (b.cfg.cooldown.toInt * 2 ^ k) b.cfg.cooldownMax.toInt) ∧
    b.cfg.cooldown ≤ b.curCooldown ∧ b.curCooldown ≤ b.cfg.cooldownMax

theorem CooldownForm.of_doubled {b : Breaker} {k : ℕ} (positive : 0 < b.cfg.cooldown.toInt)
    (order : b.cfg.cooldown.toInt ≤ b.cfg.cooldownMax.toInt)
    (h : Doubled b.cfg b.state b.curCooldown k) : b.CooldownForm k := by
  unfold Doubled at h
  unfold CooldownForm
  rw [Int64.le_iff_toInt_le, Int64.le_iff_toInt_le]
  split at h
  · rename_i closed
    rw [h]
    exact ⟨fun other => absurd closed other, le_refl _, order⟩
  · have grown : b.cfg.cooldown.toInt ≤ b.cfg.cooldown.toInt * 2 ^ k :=
      le_mul_of_one_le_right positive.le (one_le_pow₀ (by norm_num))
    exact ⟨fun _ => h, by omega, by omega⟩

/-- A threshold above every rate keeps a closed breaker closed. -/
theorem shouldTrip_of_high {b : Breaker} (sound : b.Sound)
    (high : b.cfg.errorRateThreshold.le (.finite 1) = false) (now : Int) : b.shouldTrip now = false := by
  obtain ⟨nonneg, some⟩ := sound.windowCounts now
  rw [shouldTrip_eq, Bool.eq_false_iff]
  intro trips
  obtain ⟨-, reached⟩ := floatTrips_iff.mp trips
  rcases eq_or_lt_of_le (nonneg.trans some) with empty | positive
  · rw [errorRate, if_pos empty.symm, Binary64.Value.le_nan] at reached
    cases reached
  · have most := errorRate_mono nonneg some positive (le_refl _)
    have full := errorRate_self positive
    rw [errorRate_pos positive, Binary64.Value.finite.injEq] at full
    rw [full] at most
    rw [errorRate_pos positive] at reached
    rw [Binary64.Value.le_finite_of_le reached most] at high
    cases high

theorem runOps_closed {b : Breaker} (sound : b.Sound) (closed : b.state = .closed)
    (high : b.cfg.errorRateThreshold.le (.finite 1) = false) (ops : List Operation) :
    (b.runOps ops).state = .closed ∧ (b.runOps ops).curCooldown = b.curCooldown := by
  induction ops generalizing b with
  | nil => exact ⟨closed, rfl⟩
  | cons op ops ih =>
      have kept : (op.run b).2.state = .closed ∧ (op.run b).2.curCooldown = b.curCooldown := by
        cases op with
        | allow now =>
            refine ⟨?_, (allow_frame b now).2.2⟩
            rcases allow_cases b now with ⟨opened, -⟩ | ⟨same, -⟩
            · rw [closed] at opened
              cases opened
            · exact same.trans closed
        | recordSuccess now =>
            simp only [Operation.run, recordSuccess, closed]
            exact ⟨closed, rfl⟩
        | recordFailure clock =>
            have stays := shouldTrip_of_high (sound.record clock.recordedAt false) high clock.trippedAt
            simp only [Operation.run, recordFailure, closed, stays, Bool.false_eq_true, if_false]
            exact ⟨closed, rfl⟩
      obtain ⟨state, cooldown⟩ := ih (sound.run op) kept.1 (by rw [run_cfg]; exact high)
      exact ⟨state, cooldown.trans kept.2⟩

theorem escalations_append (b : Breaker) (k : ℕ) (first second : List Operation) :
    b.escalations k (first ++ second) = (b.runOps first).escalations (b.escalations k first) second := by
  induction first generalizing b k with
  | nil => rfl
  | cons op first ih => exact ih _ _

/-- One more failure after `j` of the same second. -/
theorem Logged.another_failure {b : Breaker} {j : ℕ} (h : Logged b (List.replicate j (0, false))) :
    (floatTrips b.cfg (j + 1 : ℕ) (j + 1 : ℕ) = false →
        Logged (b.recordFailure ⟨0, 0, 0⟩) (List.replicate (j + 1) (0, false))) ∧
      (floatTrips b.cfg (j + 1 : ℕ) (j + 1 : ℕ) = true →
        (b.recordFailure ⟨0, 0, 0⟩).state = .opened) := by
  have order : ∀ pair ∈ List.replicate j ((0 : Int), false), pair.1 ≤ unix 0 := by
    intro pair member
    rw [List.eq_of_mem_replicate member]
    rfl
  have reading : (⟨0, 0, 0⟩ : Readings).recordedAt ≤ (⟨0, 0, 0⟩ : Readings).trippedAt := le_refl 0
  have recorded := h.recordFailure reading order
  have log : List.replicate j ((0 : Int), false) ++ [(unix 0, false)] = List.replicate (j + 1) (0, false) :=
    List.replicate_succ'.symm
  have all : inWindow b.windowSeconds 0 (List.replicate (j + 1) (0, false)) =
      List.replicate (j + 1) (0, false) := by
    apply List.filter_eq_self.mpr
    intro pair member
    rw [List.eq_of_mem_replicate member]
    have := h.positive
    exact decide_eq_true (show 0 - b.windowSeconds < 0 by omega)
  simp only [log, all, List.length_replicate, Ideal.failures, List.countP_replicate, Bool.not_false,
    if_true] at recorded
  exact ⟨recorded.1, fun trips => congrArg Breaker.state (recorded.2 trips)⟩

/-- Failures in one second open a breaker whose threshold is not above every rate. -/
theorem Logged.exists_trip {b : Breaker} {j m : ℕ} (h : Logged b (List.replicate j (0, false)))
    (low : b.cfg.errorRateThreshold.le (.finite 1) = true)
    (enough : b.cfg.minRequests ≤ j + 1 + m) :
    ∃ ops, (b.runOps ops).state = .opened ∧ b.escalations 0 ops = 0 := by
  induction m generalizing b j with
  | zero =>
      have trips : floatTrips b.cfg (j + 1 : ℕ) (j + 1 : ℕ) = true := by
        refine floatTrips_iff.mpr ⟨by push_cast; simpa using enough, ?_⟩
        rw [errorRate_self (by omega)]
        exact low
      refine ⟨[.recordFailure ⟨0, 0, 0⟩], h.another_failure.2 trips, ?_⟩
      simp only [escalations, Operation.run, h.state, h.another_failure.2 trips, escalate]
  | succ m ih =>
      cases trips : floatTrips b.cfg (j + 1 : ℕ) (j + 1 : ℕ) with
      | true =>
          refine ⟨[.recordFailure ⟨0, 0, 0⟩], h.another_failure.2 trips, ?_⟩
          simp only [escalations, Operation.run, h.state, h.another_failure.2 trips, escalate]
      | false =>
          have logged := h.another_failure.1 trips
          have cfg : (b.recordFailure ⟨0, 0, 0⟩).cfg = b.cfg := recordFailure_cfg
          obtain ⟨ops, opened, none⟩ := ih logged (by rw [cfg]; exact low)
            (by rw [cfg]; push_cast at enough ⊢; omega)
          refine ⟨.recordFailure ⟨0, 0, 0⟩ :: ops, opened, ?_⟩
          simp only [escalations, Operation.run, h.state, logged.state, escalate]
          exact none

/-- From open, a late enough Allow and another failure open it again. -/
theorem exists_reopening {b : Breaker} (opened : b.state = .opened) (k : ℕ) :
    ∃ ops, (b.runOps ops).state = .opened ∧
      (b.runOps ops).curCooldown = min (b.curCooldown * 2) b.cfg.cooldownMax ∧
      b.escalations k ops = k + 1 := by
  have elapsed : b.reopens (b.openedAt + b.curCooldown.toInt) := by
    refine ⟨opened, ?_⟩
    simp [cooldownElapsed]
  have half : (b.allow (b.openedAt + b.curCooldown.toInt)).2.state = .halfOpen := by
    simp only [allow, enterHalfOpen_of_reopens elapsed]
    split <;> rfl
  have failed : (b.allow (b.openedAt + b.curCooldown.toInt)).2.recordFailure ⟨0, 0, 0⟩ =
      { (b.allow (b.openedAt + b.curCooldown.toInt)).2 with
        curCooldown := min (b.curCooldown * 2) b.cfg.cooldownMax, state := .opened, openedAt := 0 } := by
    simp only [recordFailure, half, (allow_frame b _).2.2, allow_cfg]
  refine ⟨[.allow (b.openedAt + b.curCooldown.toInt), .recordFailure ⟨0, 0, 0⟩], ?_, ?_, ?_⟩
  · simp only [runOps, List.foldl_cons, List.foldl_nil, Operation.run, failed]
  · simp only [runOps, List.foldl_cons, List.foldl_nil, Operation.run, failed]
  · simp only [escalations, Operation.run, failed, half, opened, escalate]

theorem exists_reopenings {b : Breaker} (opened : b.state = .opened) (k n : ℕ) :
    ∃ ops, (b.runOps ops).state = .opened ∧ b.escalations k ops = k + n := by
  induction n with
  | zero => exact ⟨[], opened, rfl⟩
  | succ n ih =>
      obtain ⟨ops, reached, count⟩ := ih
      obtain ⟨more, again, -, next⟩ := exists_reopening reached (k + n)
      refine ⟨ops ++ more, ?_, ?_⟩
      · rw [runOps_append]
        exact again
      · rw [escalations_append, count, next]
        rfl

/-- Cooldown doubling has its closed form over every run exactly if the ceiling is below
2^62 nanoseconds, or the threshold is above every rate and the breaker never opens. -/
theorem cooldown_closed_form_iff (providerName model : String) {cfg : Config}
    (positive : 0 < cfg.cooldown) (order : cfg.cooldown ≤ cfg.cooldownMax)
    (ceiling : cfg.cooldownMax.toInt ≤ 2 ^ 62) :
    (∀ ops, CooldownForm ((newBreaker providerName model cfg).runOps ops)
        ((newBreaker providerName model cfg).escalations 0 ops)) ↔
      cfg.cooldownMax.toInt < 2 ^ 62 ∨ cfg.errorRateThreshold.le (.finite 1) = false := by
  have positive : 0 < cfg.cooldown.toInt := Int64.lt_iff_toInt_lt.mp positive
  have order := Int64.le_iff_toInt_le.mp order
  have own : ∀ ops, ((newBreaker providerName model cfg).runOps ops).cfg = cfg := runOps_cfg _
  constructor
  · intro form
    by_contra other
    simp only [not_or, not_lt, Bool.not_eq_false] at other
    obtain ⟨full, low⟩ := other
    obtain ⟨trip, opened, none⟩ := (newBreaker_logged providerName model cfg).exists_trip (j := 0)
      (m := cfg.minRequests.toNat) low (by
        have : (newBreaker providerName model cfg).cfg.minRequests = cfg.minRequests := rfl
        omega)
    obtain ⟨cycles, reopened, sixty⟩ := exists_reopenings opened 0 62
    obtain ⟨last, -, doubled, -⟩ := exists_reopening reopened 62
    have ceiled : cfg.cooldownMax.toInt = 2 ^ 62 := le_antisymm ceiling full
    -- After 62 doublings the cooldown is the ceiling, and twice that wraps around.
    have most : (((newBreaker providerName model cfg).runOps trip).runOps cycles).curCooldown.toInt =
        2 ^ 62 := by
      have clamped := (form (trip ++ cycles)).1 (by rw [runOps_append, reopened]; simp)
      rw [own, escalations_append, none, sixty, runOps_append, ceiled] at clamped
      rw [clamped]
      omega
    have low := (form (trip ++ (cycles ++ last))).2.1
    rw [own, runOps_append, runOps_append, doubled, Int64.le_iff_toInt_le, toInt_min,
      Int64.toInt_mul, most] at low
    have wrapped : (2 ^ 62 * (2 : Int64).toInt : Int).bmod (2 ^ 64) = -2 ^ 63 := by decide
    rw [wrapped] at low
    omega
  · rintro (room | high) ops
    · apply CooldownForm.of_doubled
      · rw [own]
        exact positive
      · rw [own]
        exact order
      · rw [own]
        have start : Doubled cfg (newBreaker providerName model cfg).state
            (newBreaker providerName model cfg).curCooldown 0 := rfl
        exact start.runOps positive order room rfl ops
    · obtain ⟨closed, same⟩ := runOps_closed (newBreaker_sound providerName model cfg) rfl high ops
      refine ⟨fun other => absurd closed other, ?_, ?_⟩
      · rw [own, same]
        exact Int64.le_refl _
      · rw [own, same]
        exact Int64.le_iff_toInt_le.mpr order

/-- Opens on the first failure, with a cooldown of a second up to a minute. -/
def minute : Config := ⟨.finite (1 / 2), 1, 10000000000, 1000000000, 60000000000, 1⟩

/-- Two returns from half-open: four seconds. -/
theorem two_doublings :
    let b := (newBreaker "a" "m" minute).runOps [.recordFailure ⟨0, 0, 0⟩, .allow 1000000000,
      .recordFailure ⟨0, 0, 0⟩, .allow 2000000000, .recordFailure ⟨0, 0, 0⟩]
    b.CooldownForm 2 ∧ b.curCooldown = 4000000000 := by
  have form := (cooldown_closed_form_iff "a" "m" (by decide : 0 < minute.cooldown) (by decide)
    (by decide)).mpr (.inl (by decide)) [.recordFailure ⟨0, 0, 0⟩, .allow 1000000000,
      .recordFailure ⟨0, 0, 0⟩, .allow 2000000000, .recordFailure ⟨0, 0, 0⟩]
  have count : (newBreaker "a" "m" minute).escalations 0 [.recordFailure ⟨0, 0, 0⟩,
      .allow 1000000000, .recordFailure ⟨0, 0, 0⟩, .allow 2000000000, .recordFailure ⟨0, 0, 0⟩] = 2 := by
    decide +kernel
  rw [count] at form
  exact ⟨form, by decide +kernel⟩

/-- A cooldown and a ceiling of 2^62 nanoseconds: the first return from half-open doubles
the cooldown to a negative number. -/
theorem doubling_overflows :
    let cfg : Config := ⟨.finite (1 / 2), 1, 10000000000, 4611686018427387904, 4611686018427387904, 1⟩
    let b := (newBreaker "a" "m" cfg).runOps
      [.recordFailure ⟨0, 0, 0⟩, .allow 4611686018427387904, .recordFailure ⟨0, 0, 0⟩]
    b.state = .opened ∧ b.curCooldown.toInt = -2 ^ 63 ∧ 0 < cfg.cooldown ∧
      cfg.cooldown ≤ cfg.cooldownMax ∧ cfg.cooldownMax.toInt ≤ 2 ^ 62 := by
  decide +kernel

end Gateway.Breaker
