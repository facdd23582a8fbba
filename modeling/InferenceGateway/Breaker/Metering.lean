import InferenceGateway.Breaker.Slots
import InferenceGateway.Config.Config

/-! What one breaker lets through, over any sequence of method calls by any callers. -/
namespace Gateway.Breaker

/-- One method call with the clock readings it takes. -/
inductive Method where
  | ready (now : Int)
  | allow (now : Int)
  | recordSuccess (now : Int)
  | recordFailure (clock : Readings)
  deriving DecidableEq

/-- What a call returns, and the breaker it leaves. -/
def Method.call (b : Breaker) : Method → Option Bool × Breaker
  | .ready now => (some (b.ready now), b)
  | .allow now => (some (b.allow now).1, (b.allow now).2)
  | .recordSuccess now => (none, b.recordSuccess now)
  | .recordFailure clock => (none, b.recordFailure clock)

def after (b : Breaker) (calls : List Method) : Breaker :=
  calls.foldl (fun b method => (method.call b).2) b

/-- Whether the call is an Allow that returns true. -/
def Method.grants (b : Breaker) : Method → Bool
  | .allow now => (b.allow now).1
  | _ => false

/-- How many of the calls are Allows that return true. -/
def granted (b : Breaker) : List Method → Nat
  | [] => 0
  | method :: calls => (method.grants b).toNat + granted (method.call b).2 calls

/-- Every call leaves the breaker half-open. -/
def StaysHalfOpen (b : Breaker) : List Method → Prop
  | [] => True
  | method :: calls =>
      (method.call b).2.state = .halfOpen ∧ StaysHalfOpen (method.call b).2 calls

variable {b : Breaker} {now : Int} {method : Method}

theorem call_cfg : (method.call b).2.cfg = b.cfg := by
  cases method with
  | ready now => rfl
  | allow now => exact allow_cfg
  | recordSuccess now => exact recordSuccess_cfg
  | recordFailure clock => exact recordFailure_cfg

theorem after_cfg (calls : List Method) : (b.after calls).cfg = b.cfg := by
  induction calls generalizing b with
  | nil => rfl
  | cons method calls ih => exact ih.trans call_cfg

theorem allow_halfOpen (half : b.state = .halfOpen) (now : Int) :
    b.allow now = if b.halfOpenAllowed ≤ 0 then (false, b)
      else (true, { b with halfOpenAllowed := b.halfOpenAllowed - 1 }) := by
  have closed : ¬ b.reopens now := by
    rintro ⟨opened, -⟩
    rw [half] at opened
    cases opened
  simp only [allow, enterHalfOpen_of_not_reopens closed, half]

/-- Ready predicts Allow, as entering half-open leaves a slot. -/
theorem ready_eq_allow (probes : 1 ≤ b.cfg.halfOpenProbes) : b.ready now = (b.allow now).1 := by
  by_cases reopening : b.reopens now
  · rw [(allow_metered_of_reopens probes reopening).1]
    simp only [ready, reopening.1]
    exact reopening.2
  · cases state : b.state with
    | closed => simp only [ready, allow, enterHalfOpen_of_not_reopens reopening, state]
    | opened =>
        simp only [ready, allow, enterHalfOpen_of_not_reopens reopening, state]
        exact Bool.eq_false_iff.mpr fun elapsed => reopening ⟨state, elapsed⟩
    | halfOpen =>
        rw [allow_halfOpen state]
        simp only [ready, state]
        split
        · rw [decide_eq_false_iff_not]
          omega
        · rw [decide_eq_true_iff]
          omega

theorem allow_cooling (opened : b.state = .opened)
    (early : now < b.openedAt + b.curCooldown.toInt) : (b.allow now).1 = false := by
  have cooling : ¬ b.reopens now := by
    rintro ⟨-, elapsed⟩
    rw [cooldownElapsed, decide_eq_true_iff] at elapsed
    omega
  simp only [allow, enterHalfOpen_of_not_reopens cooling, opened]

/-- In half-open a granted call takes one slot and no other call touches them. -/
theorem call_slots (half : b.state = .halfOpen) (stays : (method.call b).2.state = .halfOpen) :
    b.halfOpenAllowed = (method.grants b).toNat + (method.call b).2.halfOpenAllowed := by
  cases method with
  | ready now => simp [Method.call, Method.grants]
  | allow now =>
      simp only [Method.call, Method.grants, allow_halfOpen half]
      split
      · simp
      · simp
  | recordSuccess now =>
      simp only [Method.call, recordSuccess, half] at stays
      simp only [Method.call, Method.grants, recordSuccess, half]
      split
      · rename_i enough
        rw [if_pos enough] at stays
        cases stays
      · simp
  | recordFailure clock => exact absurd stays recordFailure_not_halfOpen

theorem call_slots_nonneg (half : b.state = .halfOpen) (left : 0 ≤ b.halfOpenAllowed)
    (stays : (method.call b).2.state = .halfOpen) : 0 ≤ (method.call b).2.halfOpenAllowed := by
  have slots := call_slots half stays
  cases grants : method.grants b with
  | false =>
      rw [grants] at slots
      simp only [Bool.toNat_false] at slots
      omega
  | true =>
      have positive : 0 < b.halfOpenAllowed := by
        cases method with
        | allow now =>
            rw [Method.grants, allow_halfOpen half] at grants
            split at grants
            · cases grants
            · omega
        | ready now => cases grants
        | recordSuccess now => cases grants
        | recordFailure clock => cases grants
      rw [grants] at slots
      simp only [Bool.toNat_true] at slots
      omega

/-- As long as the breaker stays half-open, no more calls are granted than it has slots. -/
theorem granted_le_slots {calls : List Method} (half : b.state = .halfOpen)
    (left : 0 ≤ b.halfOpenAllowed) (stays : b.StaysHalfOpen calls) :
    (b.granted calls : Int) ≤ b.halfOpenAllowed := by
  induction calls generalizing b with
  | nil => exact left
  | cons method calls ih =>
      obtain ⟨here, later⟩ := stays
      have rest := ih here (call_slots_nonneg half left here) later
      have slots := call_slots half here
      simp only [granted]
      omega

/-- Only an Allow on an open breaker whose cooldown is over makes it half-open. -/
theorem enters_cases (before : b.state ≠ .halfOpen) (half : (method.call b).2.state = .halfOpen) :
    ∃ now, method = .allow now ∧ b.reopens now := by
  cases method with
  | ready now => exact absurd half before
  | allow now =>
      refine ⟨now, rfl, ?_⟩
      by_contra stays
      simp only [Method.call, allow, enterHalfOpen_of_not_reopens stays] at half
      cases state : b.state with
      | halfOpen => exact before state
      | closed => simp [state] at half
      | opened => simp [state] at half
  | recordSuccess now =>
      cases state : b.state with
      | halfOpen => exact absurd state before
      | closed => simp [Method.call, recordSuccess, state, record] at half
      | opened => simp [Method.call, recordSuccess, state] at half
  | recordFailure clock => exact absurd half recordFailure_not_halfOpen

/-- The call that enters half-open takes the first of the configured slots. -/
theorem granted_of_entry {calls : List Method} (probes : 1 ≤ b.cfg.halfOpenProbes)
    (before : b.state ≠ .halfOpen) (half : (method.call b).2.state = .halfOpen)
    (stays : (method.call b).2.StaysHalfOpen calls) :
    (b.granted (method :: calls) : Int) ≤ b.cfg.halfOpenProbes := by
  obtain ⟨now, rfl, reopens⟩ := enters_cases before half
  have positive : ¬ b.cfg.halfOpenProbes ≤ 0 := by omega
  have slots : (b.allow now).2.halfOpenAllowed = b.cfg.halfOpenProbes - 1 := by
    simp only [allow, enterHalfOpen_of_reopens reopens, if_neg positive]
  have left : 0 ≤ (b.allow now).2.halfOpenAllowed := by omega
  have rest := granted_le_slots half left stays
  have granted_first : (b.allow now).1 = true := (allow_metered_of_reopens probes reopens).1
  simp only [granted, Method.grants, granted_first, Bool.toNat_true]
  simp only [Method.call] at rest ⊢
  omega

/-- Ready changes nothing and answers as Allow would, no call gets through before the
cooldown is over, and each half-open period grants at most the configured probes. -/
theorem halfOpen_admission_metered {isPrint : Char → Bool} (cfg : Gateway.Config.Accepted isPrint)
    (providerName model : String) (calls : List Method) :
    let b := (newBreaker providerName model cfg.breakerConfig).after calls
    (∀ now, (Method.ready now).call b = (some (b.allow now).1, b)) ∧
      (∀ now, b.state = .opened → now < b.openedAt + b.curCooldown.toInt →
        (b.allow now).1 = false) ∧
      ∀ entry period, b.state ≠ .halfOpen → (Method.call b entry).2.state = .halfOpen →
        (Method.call b entry).2.StaysHalfOpen period →
        (b.granted (entry :: period) : Int) ≤ cfg.breakerConfig.halfOpenProbes := by
  intro b
  have configured : b.cfg = cfg.breakerConfig := after_cfg calls
  have probes : 1 ≤ b.cfg.halfOpenProbes := configured ▸ cfg.halfOpenProbes_pos
  refine ⟨?_, ?_, ?_⟩
  · intro now
    rw [Method.call, ready_eq_allow probes]
  · intro now opened early
    exact allow_cooling opened early
  · intro entry period before half stays
    rw [← configured]
    exact granted_of_entry probes before half stays

end Gateway.Breaker
