import InferenceGateway.Interaction.Lockstep
import InferenceGateway.Retry.Failover
import InferenceGateway.Retry.Splicing
import InferenceGateway.Retry.Visits

/-! Execute and ExecuteStream side by side, where every call fails before it has sent
anything: the two loops ask the same questions and end in the same failure. -/
namespace Gateway.Retry
open Gateway.Providers Interaction Interaction.Program

/-- The operations the two loops share. -/
def Op.isShared : Op → Bool
  | .complete _ _ | .stream _ _ | .onDelta _ _ _ => false
  | _ => true

/-- A Complete call stands beside the Stream call for the same request. -/
inductive Kin : Op → Op → Prop
  | shared {o : Op} : o.isShared = true → Kin o o
  | call (name : String) (req : CanonicalRequest) :
      Kin (.complete name req) (.stream name { req with stream := true })

/-- Shared operations are answered the same; both calls fail with one error, after no delta. -/
inductive FailsAlike : Event Op Op.Reply → Event Op Op.Reply → Prop
  | shared {o : Op} {reply : o.Reply} : o.isShared = true → FailsAlike ⟨o, reply⟩ ⟨o, reply⟩
  | call {name : String} {req : CanonicalRequest} {err : CallError} {duration duration' : Duration} :
      FailsAlike ⟨.complete name req, ⟨.error err, duration⟩⟩
        ⟨.stream name { req with stream := true }, ⟨[], some err, duration'⟩⟩

def failing : Likeness Op Op.Reply Op Op.Reply := ⟨Kin, FailsAlike⟩

theorem shared_same {o : Op} (shared : o.isShared = true) :
    failing.kin o o ∧ ∀ r q, failing.alike ⟨o, r⟩ ⟨o, q⟩ → r = q := by
  have inversion : ∀ ev ev', failing.alike ev ev' → ev = ev' ∨ ¬ ev.1.isShared = true := by
    intro ev ev' alike
    cases alike with
    | shared _ => exact .inl rfl
    | call => exact .inr (by simp [Op.isShared])
  exact ⟨.shared shared, fun r q alike => failing.reply_eq (·.isShared = true) inversion shared alike⟩

theorem isShared_of_wait {o : Op} (h : o.isWait = true) : o.isShared = true := by
  cases o <;> first | rfl | cases h

theorem isShared_of_poll {o : Op} (h : o.isPoll = true) : o.isShared = true := by
  cases o <;> first | rfl | cases h

/-- The engine's ends: both loops failed alike, or both ran out of fuel. -/
inductive EndsAlike : Option (Except Error Result) → Option (Except StreamError StreamResult) → Prop
  | failed (err : EngineError) (attempts : List Attempt) :
      EndsAlike (some (.error ⟨err, attempts⟩)) (some (.error ⟨err, attempts, false⟩))
  | outOfFuel : EndsAlike none none

namespace Engine
variable {e : Engine} {c : Candidate}

/-- A visit that failed, with the same error and attempts, and nothing sent. -/
inductive TriedAlike : Tried → TriedStream → Prop
  | mk (err : TryError) (attempts : List Attempt) (duration duration' : Duration) :
      TriedAlike { err := some err, attempts, duration }
        { flushed := false, err := some err, attempts, duration := duration' }

/-- Progress that differs at most in the time spent. -/
def Progress.Alike (p p' : Progress) : Prop := p.attempts = p'.attempts ∧ p.lastErr = p'.lastErr

inductive TierAlike : TierEnd (Except Error Result) → TierEnd (Except StreamError StreamResult) → Prop
  | advance {p p' : Progress} : p.Alike p' → TierAlike (.advance p) (.advance p')
  | failed (err : EngineError) (attempts : List Attempt) :
      TierAlike (.returned (.error ⟨err, attempts⟩)) (.returned (.error ⟨err, attempts, false⟩))
  | outOfFuel : TierAlike .outOfFuel .outOfFuel

theorem waitBefore_lockstep {cfg : Config} {attempt : Nat} {lastErr : Option CallError}
    (first : lastErr = none → attempt = 0) :
    Lockstep failing (fun go go' => go = go' ∧ (lastErr = none → go = true))
      (waitBefore cfg attempt lastErr) (waitBefore cfg attempt lastErr) := by
  cases lastErr with
  | none =>
      rw [first rfl]
      exact ⟨rfl, fun _ => rfl⟩
  | some err =>
      have waits : (waitBefore cfg attempt (some err)).Within fun o => o.isShared = true :=
        Within.of_runs fun _ _ run ev member => isShared_of_wait (waitBefore_waits run ev member)
      exact (Lockstep.refl waits fun _ => shared_same).mono fun _ _ same => ⟨same, by simp⟩

theorem attemptLoop_lockstep {req : CanonicalRequest} {remaining attempt : Nat}
    {lastErr : Option CallError} {attempts : List Attempt} {duration duration' : Duration}
    (entered : lastErr = none → attempt = 0 ∧ 0 < remaining) :
    Lockstep failing TriedAlike (e.attemptLoop c req remaining attempt lastErr attempts duration)
      (e.streamLoop c { req with stream := true } remaining attempt lastErr false attempts
        duration') := by
  induction remaining generalizing attempt lastErr attempts duration duration' with
  | zero =>
      cases lastErr with
      | none => exact absurd (entered rfl).2 (lt_irrefl 0)
      | some err => exact TriedAlike.mk (.call err) attempts duration duration'
  | succ remaining ih =>
      rw [attemptLoop, streamLoop]
      refine .bind (waitBefore_lockstep fun none => (entered none).1) ?_
      rintro go _ ⟨rfl, first⟩
      cases go with
      | false =>
          cases lastErr with
          | none => cases first rfl
          | some err => exact TriedAlike.mk (.call err) attempts duration duration'
      | true =>
          refine .perform_bind (.call _ _) ?_
          intro r q alike
          cases alike with
          | @call _ _ err d d' =>
              simp only [relayDeltas, bind_of_pure, Bool.or_false, Bool.false_eq_true, if_false]
              cases e.classify c.providerName err with
              | terminal => exact TriedAlike.mk (.call err) _ _ _
              | fallback =>
                  refine .perform_bind (.shared rfl) fun _ _ _ => ?_
                  exact TriedAlike.mk (.call err) _ _ _
              | retryable =>
                  exact .perform_bind (.shared rfl) fun _ _ _ => ih (by simp)

theorem tryCandidate_lockstep (budget : 0 < e.cfg.maxAttemptsPerProvider.toInt.toNat)
    {req : CanonicalRequest} {attempts : List Attempt} {duration duration' : Duration} :
    Lockstep failing TriedAlike (e.tryCandidate c req attempts duration)
      (e.tryCandidateStream c { req with stream := true } attempts duration') := by
  rw [tryCandidate, tryCandidateStream]
  refine .perform_bind (.shared rfl) fun allowed _ alike => ?_
  cases (shared_same rfl).2 _ _ alike
  cases allowed with
  | false => exact TriedAlike.mk .breakerRejected attempts duration duration'
  | true => exact attemptLoop_lockstep fun _ => ⟨rfl, budget⟩

theorem tryTier_lockstep (budget : 0 < e.cfg.maxAttemptsPerProvider.toInt.toNat) {tier : Tier}
    {req : CanonicalRequest} {fuel : Nat} {tried : List String} {p p' : Progress} (same : p.Alike p') :
    Lockstep failing TierAlike (e.tryTier tier req fuel tried p)
      (e.tryTierStream tier { req with stream := true } fuel tried p') := by
  induction fuel generalizing tried p p' with
  | zero => exact TierAlike.outOfFuel
  | succ fuel ih =>
      have polls : (e.pickFromTier tier tried).Within fun o => o.isShared = true :=
        Within.of_runs fun _ _ run ev member => isShared_of_poll (pickFromTier_polls run ev member)
      rw [tryTier, tryTierStream]
      refine .bind (Lockstep.refl polls fun _ => shared_same) ?_
      rintro picked _ rfl
      cases picked with
      | none => exact TierAlike.advance same
      | some c =>
          obtain ⟨attempts, duration, lastErr⟩ := p
          obtain ⟨_, duration', _⟩ := p'
          obtain ⟨rfl, rfl⟩ := same
          refine .bind (tryCandidate_lockstep budget) ?_
          rintro _ _ ⟨err, attempts', spent, spent'⟩
          cases err with
          | breakerRejected => exact ih ⟨rfl, rfl⟩
          | call err =>
              simp only [Bool.false_eq_true, if_false]
              cases e.classify c.providerName err with
              | terminal => exact TierAlike.failed (.call err) attempts'
              | retryable | fallback =>
                  refine .perform_bind (.shared rfl) fun ctxErr _ alike => ?_
                  cases (shared_same rfl).2 _ _ alike
                  cases ctxErr with
                  | some ce => exact TierAlike.failed (.ctx ce) attempts'
                  | none => exact ih ⟨rfl, rfl⟩

theorem executeFrom_lockstep (budget : 0 < e.cfg.maxAttemptsPerProvider.toInt.toNat)
    {tiers : List Tier} {req : CanonicalRequest} {p p' : Progress} (same : p.Alike p') :
    Lockstep failing EndsAlike (e.executeFrom req tiers p)
      (e.executeStreamFrom { req with stream := true } tiers p') := by
  induction tiers generalizing p p' with
  | nil =>
      change EndsAlike (some (.error ⟨p.lastErr, p.attempts⟩)) (some (.error ⟨p'.lastErr, p'.attempts, false⟩))
      rw [← same.1, ← same.2]
      exact .failed p.lastErr p.attempts
  | cons tier tiers ih =>
      rw [executeFrom, executeStreamFrom]
      refine .bind (tryTier_lockstep budget same) ?_
      intro ended ended' alike
      cases alike with
      | advance carried => exact ih carried
      | failed err attempts => exact EndsAlike.failed err attempts
      | outOfFuel => exact EndsAlike.outOfFuel

/-- Where every call fails alike before any delta, ExecuteStream fails as Execute does. -/
theorem executeStream_fails {tiers : List Tier} {req : CanonicalRequest} {tr tr' : Trace}
    {outcome : Except Error Result} {outcome' : Except StreamError StreamResult}
    (budget : 1 ≤ e.cfg.maxAttemptsPerProvider) (run : Runs (e.execute tiers req) tr (some outcome))
    (run' : Runs (e.executeStream tiers { req with stream := true }) tr' (some outcome'))
    (alike : List.Forall₂ FailsAlike tr (tr'.filter fun ev => (callback ev).isNone)) :
    (∃ err attempts, outcome = .error ⟨err, attempts⟩ ∧ outcome' = .error ⟨err, attempts, false⟩) ∧
      ∀ ev ∈ tr', callback ev = none := by
  have lockstep : Lockstep failing EndsAlike (e.execute tiers req)
      (e.executeStream tiers { req with stream := true }) :=
    executeFrom_lockstep (budget_pos budget) ⟨rfl, rfl⟩
  have kept (o o' : Op) (reply : o'.Reply) (kin : Kin o o') :
      (callback ⟨o', reply⟩).isNone = true := by
    cases kin with
    | shared shared => cases o <;> first | rfl | cases shared
    | call name req => rfl
  obtain ⟨ends, whole⟩ := lockstep.runs (fun ev => (callback ev).isNone) kept run run' alike
  refine ⟨?_, fun ev member => ?_⟩
  · cases ends with
    | failed err attempts => exact ⟨err, attempts, rfl, rfl⟩
  · rw [← whole] at member
    simpa using (List.mem_filter.mp member).2

/-- The attempts a failure of Execute reports are the calls that were made. -/
theorem execute_attempts {tiers : List Tier} {req : CanonicalRequest} {tr : Trace} {failure : Error}
    (budget : 1 ≤ e.cfg.maxAttemptsPerProvider)
    (run : Runs (e.execute tiers req) tr (some (.error failure))) : failure.attempts = calls tr := by
  obtain ⟨logs, -, -, -, ⟨out, same, done⟩ | ⟨-, -, p', carried, same⟩⟩ :=
    executeFrom_log (budget_pos budget) run
  · cases same
    cases done with
    | error attempts => exact attempts
  · cases same
    exact carried.attempts

end Engine
end Gateway.Retry
