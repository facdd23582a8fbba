import InferenceGateway.Retry.Selection

/-! One iteration of each loop of the engine, read off its runs. Every later result
about whole runs is an induction over these case lists. -/
namespace Gateway.Retry
open Gateway.Providers Interaction Interaction.Program

def Op.isWait : Op → Bool
  | .int63n _ | .sleep _ => true
  | _ => false

def Op.isPoll : Op → Bool
  | .ready _ _ | .intn _ => true
  | _ => false

theorem backoffFor_waits {attempt : Int} {base maxBackoff d : Duration} {err : Option CallError}
    {tr : Trace} (h : Runs (backoffFor attempt base maxBackoff err) tr d) :
    ∀ ev ∈ tr, ev.1.isWait = true := by
  have jitter : ∀ {tr : Trace}, Runs (fullJitterBackoff attempt base maxBackoff) tr d →
      ∀ ev ∈ tr, ev.1.isWait = true := by
    intro tr h
    simp only [fullJitterBackoff] at h
    split at h
    · obtain ⟨rfl, -⟩ := runs_pure.mp h
      simp
    · obtain ⟨r, tr', rfl, rest⟩ := runs_perform_bind.mp h
      obtain ⟨rfl, -⟩ := runs_pure.mp rest
      simp [Op.isWait]
  unfold backoffFor at h
  split at h
  · split at h
    · obtain ⟨rfl, -⟩ := runs_pure.mp h
      simp
    · exact jitter h
  · exact jitter h

theorem waitBefore_waits {cfg : Config} {attempt : Nat} {lastErr : Option CallError} {go : Bool}
    {tr : Trace} (h : Runs (waitBefore cfg attempt lastErr) tr go) :
    ∀ ev ∈ tr, ev.1.isWait = true := by
  unfold waitBefore at h
  split at h
  · obtain ⟨tr₁, d, tr₂, rfl, first, last⟩ := runs_bind.mp h
    have slept : ∀ ev ∈ tr₂, ev.1.isWait = true := by
      unfold sleepWithinDeadline at last
      split at last
      · obtain ⟨rfl, -⟩ := runs_pure.mp last
        simp
      · rw [runs_perform.mp last]
        simp [Op.isWait]
    intro ev member
    rcases List.mem_append.mp member with early | late
    · exact backoffFor_waits first ev early
    · exact slept ev late
  · obtain ⟨rfl, -⟩ := runs_pure.mp h
    simp

/-- The first attempt starts at once. -/
theorem waitBefore_first {cfg : Config} {lastErr : Option CallError} {go : Bool} {tr : Trace}
    (h : Runs (waitBefore cfg 0 lastErr) tr go) : tr = [] ∧ go = true := runs_pure.mp h

namespace Engine
variable {e : Engine} {tier : Tier} {tried : List String} {req providerReq : CanonicalRequest}
  {c : Candidate}

theorem budget_pos (h : 1 ≤ e.cfg.maxAttemptsPerProvider) :
    0 < e.cfg.maxAttemptsPerProvider.toInt.toNat := by
  have := Int64.le_iff_toInt_le.mp h
  have one : (1 : Int64).toInt = 1 := by decide
  omega

theorem pickFromTier_polls {tr : Trace} {out : Option Candidate}
    (h : Runs (e.pickFromTier tier tried) tr out) : ∀ ev ∈ tr, ev.1.isPoll = true := by
  have asks : ∀ poll : Poll, ∀ ev ∈ poll.trace, ev.1.isPoll = true := by
    intro poll ev member
    obtain ⟨q, -, rfl⟩ := List.mem_map.mp member
    rfl
  obtain ⟨poll, -, ⟨-, -, rfl⟩ | ⟨last, -, -, pick, -, rfl⟩⟩ := runs_pickFromTier.mp h
  · exact asks poll
  · intro ev member
    rcases List.mem_append.mp member with early | late
    · exact asks poll ev early
    · rw [List.mem_singleton.mp late]
      rfl

/-- What follows the reply to one Complete call. -/
inductive AfterComplete (e : Engine) (c : Candidate) (providerReq : CanonicalRequest)
    (remaining attempt : Nat) (attempts : List Attempt) (duration : Duration) :
    Except CallError CanonicalResponse → Trace → Tried → Prop
  | success (resp : CanonicalResponse) :
      AfterComplete e c providerReq remaining attempt attempts duration (.ok resp)
        [⟨.recordSuccess c.providerName c.model, ()⟩]
        { resp := some resp, attempts := attempts ++ [⟨c.providerName, 200⟩], duration }
  | terminal (err : CallError) : e.classify c.providerName err = .terminal →
      AfterComplete e c providerReq remaining attempt attempts duration (.error err) []
        { err := some (.call err), attempts := attempts ++ [⟨c.providerName, err.status⟩], duration }
  | fallback (err : CallError) : e.classify c.providerName err = .fallback →
      AfterComplete e c providerReq remaining attempt attempts duration (.error err)
        [⟨.recordFailure c.providerName c.model, ()⟩]
        { err := some (.call err), attempts := attempts ++ [⟨c.providerName, err.status⟩], duration }
  | retry (err : CallError) {tr : Trace} {t : Tried} :
      e.classify c.providerName err = .retryable →
      Runs (e.attemptLoop c providerReq remaining (attempt + 1) (some err)
        (attempts ++ [⟨c.providerName, err.status⟩]) duration) tr t →
      AfterComplete e c providerReq remaining attempt attempts duration (.error err)
        (⟨.recordFailure c.providerName c.model, ()⟩ :: tr) t

theorem attemptLoop_succ {remaining attempt : Nat} {lastErr : Option CallError}
    {attempts : List Attempt} {duration : Duration} {tr : Trace} {t : Tried}
    (h : Runs (e.attemptLoop c providerReq (remaining + 1) attempt lastErr attempts duration) tr t) :
    ∃ go tr₁ tr₂, tr = tr₁ ++ tr₂ ∧ Runs (waitBefore e.cfg attempt lastErr) tr₁ go ∧
      ((go = false ∧ tr₂ = [] ∧ t = { err := lastErr.map .call, attempts, duration }) ∨
        (go = true ∧ ∃ reply tr₃, tr₂ = ⟨.complete c.providerName providerReq, reply⟩ :: tr₃ ∧
          AfterComplete e c providerReq remaining attempt attempts (duration + reply.duration)
            reply.result tr₃ t)) := by
  rw [attemptLoop, runs_bind] at h
  obtain ⟨tr₁, go, tr₂, rfl, wait, rest⟩ := h
  refine ⟨go, tr₁, tr₂, rfl, wait, ?_⟩
  cases go with
  | false =>
      obtain ⟨rfl, rfl⟩ := runs_pure.mp rest
      exact .inl ⟨rfl, rfl, rfl⟩
  | true =>
      obtain ⟨reply, tr₃, rfl, tail⟩ := runs_perform_bind.mp rest
      refine .inr ⟨rfl, reply, tr₃, rfl, ?_⟩
      cases hr : reply.result with
      | ok resp =>
          simp only [hr] at tail
          obtain ⟨-, tr₄, rfl, last⟩ := runs_perform_bind.mp tail
          obtain ⟨rfl, rfl⟩ := runs_pure.mp last
          exact .success resp
      | error err =>
          simp only [hr] at tail
          cases hc : e.classify c.providerName err with
          | terminal =>
              simp only [hc] at tail
              obtain ⟨rfl, rfl⟩ := runs_pure.mp tail
              exact .terminal err hc
          | fallback =>
              simp only [hc] at tail
              obtain ⟨-, tr₄, rfl, last⟩ := runs_perform_bind.mp tail
              obtain ⟨rfl, rfl⟩ := runs_pure.mp last
              exact .fallback err hc
          | retryable =>
              simp only [hc] at tail
              obtain ⟨-, tr₄, rfl, last⟩ := runs_perform_bind.mp tail
              exact .retry err hc last

/-- What Execute does with the answer of tryCandidate. -/
inductive AfterVisit (e : Engine) (tier : Tier) (req : CanonicalRequest) (fuel : Nat)
    (tried : List String) (p : Progress) (c : Candidate) (t : Tried) :
    Trace → TierEnd (Except Error Result) → Prop
  | served : t.err = none →
      AfterVisit e tier req fuel tried p c t []
        (.returned (.ok ⟨t.resp, c.providerName, c.model, t.attempts, t.duration⟩))
  | rejected {tr : Trace} {out : TierEnd (Except Error Result)} :
      t.err = some .breakerRejected →
      Runs (e.tryTier tier req fuel (c.providerName :: tried)
        { p with attempts := t.attempts, duration := t.duration }) tr out →
      AfterVisit e tier req fuel tried p c t tr out
  | terminal (err : CallError) : t.err = some (.call err) →
      e.classify c.providerName err = .terminal →
      AfterVisit e tier req fuel tried p c t [] (.returned (.error ⟨.call err, t.attempts⟩))
  | cancelled (err : CallError) (ce : CtxError) : t.err = some (.call err) →
      e.classify c.providerName err ≠ .terminal →
      AfterVisit e tier req fuel tried p c t [⟨.ctxErr, some ce⟩]
        (.returned (.error ⟨.ctx ce, t.attempts⟩))
  | reselect (err : CallError) {tr : Trace} {out : TierEnd (Except Error Result)} :
      t.err = some (.call err) → e.classify c.providerName err ≠ .terminal →
      Runs (e.tryTier tier req fuel (c.providerName :: tried)
        ⟨t.attempts, t.duration, .call err⟩) tr out →
      AfterVisit e tier req fuel tried p c t (⟨.ctxErr, none⟩ :: tr) out

theorem runs_ctxErr {γ : Type} {f : Option CtxError → EngineM γ} {tr : Trace} {out : γ}
    (h : Runs (perform .ctxErr >>= f) tr out) :
    (∃ ce tr', tr = ⟨.ctxErr, some ce⟩ :: tr' ∧ Runs (f (some ce)) tr' out) ∨
      ∃ tr', tr = ⟨.ctxErr, none⟩ :: tr' ∧ Runs (f none) tr' out := by
  obtain ⟨r, tr', rfl, rest⟩ := runs_perform_bind.mp h
  cases r with
  | none => exact .inr ⟨tr', rfl, rest⟩
  | some ce => exact .inl ⟨ce, tr', rfl, rest⟩

theorem tryTier_succ {fuel : Nat} {p : Progress} {tr : Trace} {out : TierEnd (Except Error Result)}
    (h : Runs (e.tryTier tier req (fuel + 1) tried p) tr out) :
    (Runs (e.pickFromTier tier tried) tr none ∧ out = .advance p) ∨
      ∃ c tr₁ t tr₂ tr₃, tr = tr₁ ++ (tr₂ ++ tr₃) ∧ Runs (e.pickFromTier tier tried) tr₁ (some c) ∧
        Runs (e.tryCandidate c req p.attempts p.duration) tr₂ t ∧
        AfterVisit e tier req fuel tried p c t tr₃ out := by
  rw [tryTier, runs_bind] at h
  obtain ⟨tr₁, picked, rest, rfl, pick, chosen⟩ := h
  cases picked with
  | none =>
      obtain ⟨rfl, rfl⟩ := runs_pure.mp chosen
      exact .inl ⟨by simpa using pick, rfl⟩
  | some c =>
      obtain ⟨tr₂, t, tr₃, rfl, visit, after⟩ := runs_bind.mp chosen
      refine .inr ⟨c, tr₁, t, tr₂, tr₃, rfl, pick, visit, ?_⟩
      cases ht : t.err with
      | none =>
          simp only [ht] at after
          obtain ⟨rfl, rfl⟩ := runs_pure.mp after
          exact .served ht
      | some failure =>
          cases failure with
          | breakerRejected =>
              simp only [ht] at after
              exact .rejected ht after
          | call err =>
              simp only [ht] at after
              cases hc : e.classify c.providerName err with
              | terminal =>
                  simp only [hc] at after
                  obtain ⟨rfl, rfl⟩ := runs_pure.mp after
                  exact .terminal err ht hc
              | retryable | fallback =>
                  simp only [hc] at after
                  obtain ⟨ce, tr', rfl, rest⟩ | ⟨tr', rfl, rest⟩ := runs_ctxErr after
                  · obtain ⟨rfl, rfl⟩ := runs_pure.mp rest
                    exact .cancelled err ce ht (by simp [hc])
                  · exact .reselect err ht (by simp [hc]) rest

theorem tryCandidate_cases {attempts : List Attempt} {duration : Duration} {tr : Trace} {t : Tried}
    (h : Runs (e.tryCandidate c req attempts duration) tr t) :
    (tr = [⟨.allow c.providerName c.model, false⟩] ∧
        t = { err := some .breakerRejected, attempts, duration }) ∨
      ∃ tr', tr = ⟨.allow c.providerName c.model, true⟩ :: tr' ∧
        Runs (e.attemptLoop c { req with model := c.model }
          e.cfg.maxAttemptsPerProvider.toInt.toNat 0 none attempts duration) tr' t := by
  rw [tryCandidate] at h
  obtain ⟨r, tr', rfl, rest⟩ := runs_perform_bind.mp h
  cases r with
  | false =>
      obtain ⟨rfl, rfl⟩ := runs_pure.mp rest
      exact .inl ⟨rfl, rfl⟩
  | true => exact .inr ⟨tr', rfl, rest⟩

/-- With at least one attempt to make, a loop that reports no error has a response. -/
theorem attemptLoop_answers {remaining attempt : Nat} {lastErr : Option CallError}
    {attempts : List Attempt} {duration : Duration} {tr : Trace} {t : Tried}
    (entered : lastErr = none → attempt = 0 ∧ 0 < remaining)
    (h : Runs (e.attemptLoop c providerReq remaining attempt lastErr attempts duration) tr t)
    (fine : t.err = none) : ∃ resp, t.resp = some resp := by
  induction remaining generalizing attempt lastErr attempts duration tr with
  | zero =>
      obtain ⟨-, rfl⟩ := runs_pure.mp h
      exact absurd (entered (Option.map_eq_none_iff.mp fine)).2 (lt_irrefl 0)
  | succ remaining ih =>
      obtain ⟨go, tr₁, tr₂, -, wait, ⟨rfl, -, rfl⟩ | ⟨-, reply, tr₃, -, after⟩⟩ := attemptLoop_succ h
      · obtain ⟨rfl, -⟩ := entered (Option.map_eq_none_iff.mp fine)
        exact absurd (waitBefore_first wait).2 (by decide)
      · generalize reply.result = result at after
        cases after with
        | success resp => exact ⟨resp, rfl⟩
        | terminal err _ => cases fine
        | fallback err _ => cases fine
        | retry err _ again => exact ih (by simp) again

/-- What follows the relay of one Stream call. -/
inductive AfterRelay (e : Engine) (c : Candidate) (providerReq : CanonicalRequest)
    (remaining attempt : Nat) (flushed : Bool) (attempts : List Attempt) (duration : Duration)
    (usage : Option Usage) : Option CallError → Trace → TriedStream → Prop
  | success : AfterRelay e c providerReq remaining attempt flushed attempts duration usage none
      [⟨.recordSuccess c.providerName c.model, ()⟩]
      { usage, flushed, attempts := attempts ++ [⟨c.providerName, 200⟩], duration }
  | broken (err : CallError) : flushed = true →
      AfterRelay e c providerReq remaining attempt flushed attempts duration usage (some err) []
        { flushed := true, err := some (.call err)
          attempts := attempts ++ [⟨c.providerName, err.status⟩], duration }
  | terminal (err : CallError) : flushed = false → e.classify c.providerName err = .terminal →
      AfterRelay e c providerReq remaining attempt flushed attempts duration usage (some err) []
        { flushed := false, err := some (.call err)
          attempts := attempts ++ [⟨c.providerName, err.status⟩], duration }
  | fallback (err : CallError) : flushed = false → e.classify c.providerName err = .fallback →
      AfterRelay e c providerReq remaining attempt flushed attempts duration usage (some err)
        [⟨.recordFailure c.providerName c.model, ()⟩]
        { flushed := false, err := some (.call err)
          attempts := attempts ++ [⟨c.providerName, err.status⟩], duration }
  | retry (err : CallError) {tr : Trace} {t : TriedStream} : flushed = false →
      e.classify c.providerName err = .retryable →
      Runs (e.streamLoop c providerReq remaining (attempt + 1) (some err) flushed
        (attempts ++ [⟨c.providerName, err.status⟩]) duration) tr t →
      AfterRelay e c providerReq remaining attempt flushed attempts duration usage (some err)
        (⟨.recordFailure c.providerName c.model, ()⟩ :: tr) t

theorem streamLoop_succ {remaining attempt : Nat} {lastErr : Option CallError} {flushed : Bool}
    {attempts : List Attempt} {duration : Duration} {tr : Trace} {t : TriedStream}
    (h : Runs (e.streamLoop c providerReq (remaining + 1) attempt lastErr flushed attempts duration)
      tr t) :
    ∃ go tr₁ tr₂, tr = tr₁ ++ tr₂ ∧ Runs (waitBefore e.cfg attempt lastErr) tr₁ go ∧
      ((go = false ∧ tr₂ = [] ∧ t = { flushed, err := lastErr.map .call, attempts, duration }) ∨
        (go = true ∧ ∃ reply relayed tr₃ tr₄,
          tr₂ = ⟨.stream c.providerName providerReq, reply⟩ :: (tr₃ ++ tr₄) ∧
          Runs (relayDeltas c.providerName c.model reply.err reply.deltas none false) tr₃ relayed ∧
          AfterRelay e c providerReq remaining attempt (flushed || relayed.flushed) attempts
            (duration + reply.duration) relayed.usage relayed.err tr₄ t)) := by
  rw [streamLoop, runs_bind] at h
  obtain ⟨tr₁, go, tr₂, rfl, wait, rest⟩ := h
  refine ⟨go, tr₁, tr₂, rfl, wait, ?_⟩
  cases go with
  | false =>
      obtain ⟨rfl, rfl⟩ := runs_pure.mp rest
      exact .inl ⟨rfl, rfl, rfl⟩
  | true =>
      obtain ⟨reply, rest', rfl, called⟩ := runs_perform_bind.mp rest
      obtain ⟨tr₃, relayed, tr₄, rfl, relay, tail⟩ := runs_bind.mp called
      refine .inr ⟨rfl, reply, relayed, tr₃, tr₄, rfl, relay, ?_⟩
      cases hr : relayed.err with
      | none =>
          simp only [hr] at tail
          obtain ⟨-, tr₅, rfl, last⟩ := runs_perform_bind.mp tail
          obtain ⟨rfl, rfl⟩ := runs_pure.mp last
          exact .success
      | some err =>
          simp only [hr] at tail
          cases hf : flushed || relayed.flushed with
          | true =>
              simp only [hf, if_true] at tail
              obtain ⟨rfl, rfl⟩ := runs_pure.mp tail
              exact .broken err rfl
          | false =>
              simp only [hf, Bool.false_eq_true, if_false] at tail
              cases hc : e.classify c.providerName err with
              | terminal =>
                  simp only [hc] at tail
                  obtain ⟨rfl, rfl⟩ := runs_pure.mp tail
                  exact .terminal err rfl hc
              | fallback =>
                  simp only [hc] at tail
                  obtain ⟨-, tr₅, rfl, last⟩ := runs_perform_bind.mp tail
                  obtain ⟨rfl, rfl⟩ := runs_pure.mp last
                  exact .fallback err rfl hc
              | retryable =>
                  simp only [hc] at tail
                  obtain ⟨-, tr₅, rfl, last⟩ := runs_perform_bind.mp tail
                  exact .retry err rfl hc last

theorem tryCandidateStream_cases {attempts : List Attempt} {duration : Duration} {tr : Trace}
    {t : TriedStream} (h : Runs (e.tryCandidateStream c req attempts duration) tr t) :
    (tr = [⟨.allow c.providerName c.model, false⟩] ∧
        t = { flushed := false, err := some .breakerRejected, attempts, duration }) ∨
      ∃ tr', tr = ⟨.allow c.providerName c.model, true⟩ :: tr' ∧
        Runs (e.streamLoop c { req with model := c.model }
          e.cfg.maxAttemptsPerProvider.toInt.toNat 0 none false attempts duration) tr' t := by
  rw [tryCandidateStream] at h
  obtain ⟨r, tr', rfl, rest⟩ := runs_perform_bind.mp h
  cases r with
  | false =>
      obtain ⟨rfl, rfl⟩ := runs_pure.mp rest
      exact .inl ⟨rfl, rfl⟩
  | true => exact .inr ⟨tr', rfl, rest⟩

/-- Only a refused Allow answers with errBreakerRejected. -/
theorem streamLoop_not_rejected {remaining attempt : Nat} {lastErr : Option CallError}
    {flushed : Bool} {attempts : List Attempt} {duration : Duration} {tr : Trace} {t : TriedStream}
    (h : Runs (e.streamLoop c providerReq remaining attempt lastErr flushed attempts duration) tr t) :
    t.err ≠ some .breakerRejected := by
  induction remaining generalizing attempt lastErr flushed attempts duration tr with
  | zero =>
      obtain ⟨-, rfl⟩ := runs_pure.mp h
      simp
  | succ remaining ih =>
      obtain ⟨go, tr₁, tr₂, -, -, ⟨-, -, rfl⟩ | ⟨-, reply, relayed, tr₃, tr₄, -, -, after⟩⟩ :=
        streamLoop_succ h
      · simp
      · generalize relayed.err = failure at after
        cases after with
        | success => simp
        | broken err _ => simp
        | terminal err _ _ => simp
        | fallback err _ _ => simp
        | retry err _ _ again => exact ih again

/-- What ExecuteStream does with the answer of tryCandidateStream. -/
inductive AfterVisitStream (e : Engine) (tier : Tier) (req : CanonicalRequest) (fuel : Nat)
    (tried : List String) (p : Progress) (c : Candidate) (t : TriedStream) :
    Trace → TierEnd (Except StreamError StreamResult) → Prop
  | served : t.err = none →
      AfterVisitStream e tier req fuel tried p c t []
        (.returned (.ok ⟨c.providerName, c.model, t.attempts, t.usage, t.duration⟩))
  | rejected {tr : Trace} {out : TierEnd (Except StreamError StreamResult)} :
      t.err = some .breakerRejected →
      Runs (e.tryTierStream tier req fuel (c.providerName :: tried)
        { p with attempts := t.attempts, duration := t.duration }) tr out →
      AfterVisitStream e tier req fuel tried p c t tr out
  | broken (err : CallError) : t.err = some (.call err) → t.flushed = true →
      AfterVisitStream e tier req fuel tried p c t []
        (.returned (.error ⟨.call err, t.attempts, true⟩))
  | terminal (err : CallError) : t.err = some (.call err) → t.flushed = false →
      e.classify c.providerName err = .terminal →
      AfterVisitStream e tier req fuel tried p c t []
        (.returned (.error ⟨.call err, t.attempts, false⟩))
  | cancelled (err : CallError) (ce : CtxError) : t.err = some (.call err) → t.flushed = false →
      e.classify c.providerName err ≠ .terminal →
      AfterVisitStream e tier req fuel tried p c t [⟨.ctxErr, some ce⟩]
        (.returned (.error ⟨.ctx ce, t.attempts, false⟩))
  | reselect (err : CallError) {tr : Trace} {out : TierEnd (Except StreamError StreamResult)} :
      t.err = some (.call err) → t.flushed = false → e.classify c.providerName err ≠ .terminal →
      Runs (e.tryTierStream tier req fuel (c.providerName :: tried)
        ⟨t.attempts, t.duration, .call err⟩) tr out →
      AfterVisitStream e tier req fuel tried p c t (⟨.ctxErr, none⟩ :: tr) out

theorem tryTierStream_succ {fuel : Nat} {p : Progress} {tr : Trace}
    {out : TierEnd (Except StreamError StreamResult)}
    (h : Runs (e.tryTierStream tier req (fuel + 1) tried p) tr out) :
    (Runs (e.pickFromTier tier tried) tr none ∧ out = .advance p) ∨
      ∃ c tr₁ t tr₂ tr₃, tr = tr₁ ++ (tr₂ ++ tr₃) ∧ Runs (e.pickFromTier tier tried) tr₁ (some c) ∧
        Runs (e.tryCandidateStream c req p.attempts p.duration) tr₂ t ∧
        AfterVisitStream e tier req fuel tried p c t tr₃ out := by
  rw [tryTierStream, runs_bind] at h
  obtain ⟨tr₁, picked, rest, rfl, pick, chosen⟩ := h
  cases picked with
  | none =>
      obtain ⟨rfl, rfl⟩ := runs_pure.mp chosen
      exact .inl ⟨by simpa using pick, rfl⟩
  | some c =>
      obtain ⟨tr₂, t, tr₃, rfl, visit, after⟩ := runs_bind.mp chosen
      refine .inr ⟨c, tr₁, t, tr₂, tr₃, rfl, pick, visit, ?_⟩
      cases ht : t.err with
      | none =>
          simp only [ht] at after
          obtain ⟨rfl, rfl⟩ := runs_pure.mp after
          exact .served ht
      | some failure =>
          cases failure with
          | breakerRejected =>
              simp only [ht] at after
              exact .rejected ht after
          | call err =>
              simp only [ht] at after
              cases hf : t.flushed with
              | true =>
                  simp only [hf, if_true] at after
                  obtain ⟨rfl, rfl⟩ := runs_pure.mp after
                  exact .broken err ht hf
              | false =>
                  simp only [hf, Bool.false_eq_true, if_false] at after
                  cases hc : e.classify c.providerName err with
                  | terminal =>
                      simp only [hc] at after
                      obtain ⟨rfl, rfl⟩ := runs_pure.mp after
                      exact .terminal err ht hf hc
                  | retryable | fallback =>
                      simp only [hc] at after
                      obtain ⟨ce, tr', rfl, rest⟩ | ⟨tr', rfl, rest⟩ := runs_ctxErr after
                      · obtain ⟨rfl, rfl⟩ := runs_pure.mp rest
                        exact .cancelled err ce ht hf (by simp [hc])
                      · exact .reselect err ht hf (by simp [hc]) rest

end Engine
end Gateway.Retry
