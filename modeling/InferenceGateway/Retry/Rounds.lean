import InferenceGateway.Retry.Steps

/-! Whole runs of Execute and ExecuteStream without their fuel: rounds of a pick and a visit
within a tier, and one tier after the other. Results about runs are inductions over these. -/
namespace Gateway.Retry
open Gateway.Providers Interaction Interaction.Program

namespace Engine

/-- The rounds of one tier: `ends` is a visit that ends the run, `resumes` one after which the
tier is asked again, each with what is done between. -/
inductive TierRun (e : Engine) (tier : Tier) {τ ρ : Type}
    (visits : Candidate → Progress → Trace → τ → Prop) (ends : Candidate → τ → Trace → ρ → Prop)
    (resumes : Candidate → Progress → τ → Trace → Progress → Prop) :
    List String → Progress → Trace → TierEnd ρ → Prop
  | left {tried : List String} {p : Progress} {tr : Trace} :
      Runs (e.pickFromTier tier tried) tr none →
      TierRun e tier visits ends resumes tried p tr (.advance p)
  | ended {tried : List String} {p : Progress} {c : Candidate} {t : τ} {polls visit last : Trace}
      {r : ρ} :
      Runs (e.pickFromTier tier tried) polls (some c) → visits c p visit t → ends c t last r →
      TierRun e tier visits ends resumes tried p (polls ++ (visit ++ last)) (.returned r)
  | resumed {tried : List String} {p p' : Progress} {c : Candidate} {t : τ}
      {polls visit next rest : Trace} {out : TierEnd ρ} :
      Runs (e.pickFromTier tier tried) polls (some c) → visits c p visit t →
      resumes c p t next p' →
      TierRun e tier visits ends resumes (c.providerName :: tried) p' rest out →
      TierRun e tier visits ends resumes tried p (polls ++ (visit ++ (next ++ rest))) out

/-- One tier after the other, up to one that ends the run. -/
inductive TiersRun {ρ : Type} (runs : Tier → Progress → Trace → TierEnd ρ → Prop)
    (givesUp : Progress → ρ) : List Tier → Progress → Trace → ρ → Prop
  | exhausted (p : Progress) : TiersRun runs givesUp [] p [] (givesUp p)
  | returned {tier : Tier} {tiers : List Tier} {p : Progress} {tr : Trace} {r : ρ} :
      runs tier p tr (.returned r) → TiersRun runs givesUp (tier :: tiers) p tr r
  | advanced {tier : Tier} {tiers : List Tier} {p p' : Progress} {tr rest : Trace} {r : ρ} :
      runs tier p tr (.advance p') → TiersRun runs givesUp tiers p' rest r →
      TiersRun runs givesUp (tier :: tiers) p (tr ++ rest) r

/-- A visit of Execute that ends the run. -/
inductive Ends (e : Engine) (c : Candidate) (t : Tried) : Trace → Except Error Result → Prop
  | served : t.err = none →
      Ends e c t [] (.ok ⟨t.resp, c.providerName, c.model, t.attempts, t.duration⟩)
  | terminal (err : CallError) : t.err = some (.call err) →
      e.classify c.providerName err = .terminal → Ends e c t [] (.error ⟨.call err, t.attempts⟩)
  | cancelled (err : CallError) (ce : CtxError) : t.err = some (.call err) →
      e.classify c.providerName err ≠ .terminal →
      Ends e c t [⟨.ctxErr, some ce⟩] (.error ⟨.ctx ce, t.attempts⟩)

inductive Resumes (e : Engine) (c : Candidate) (p : Progress) (t : Tried) : Trace → Progress → Prop
  | rejected : t.err = some .breakerRejected →
      Resumes e c p t [] { p with attempts := t.attempts, duration := t.duration }
  | reselect (err : CallError) : t.err = some (.call err) →
      e.classify c.providerName err ≠ .terminal →
      Resumes e c p t [⟨.ctxErr, none⟩] ⟨t.attempts, t.duration, .call err⟩

/-- The rounds of Execute in one tier. -/
abbrev ExecutesTier (e : Engine) (req : CanonicalRequest) (tier : Tier) :
    List String → Progress → Trace → TierEnd (Except Error Result) → Prop :=
  TierRun e tier (fun c p => Runs (e.tryCandidate c req p.attempts p.duration)) (Ends e) (Resumes e)

abbrev Executes (e : Engine) (req : CanonicalRequest) :
    List Tier → Progress → Trace → Except Error Result → Prop :=
  TiersRun (e.ExecutesTier req · []) fun p => .error ⟨p.lastErr, p.attempts⟩

/-- A visit of ExecuteStream that ends the run. -/
inductive EndsStream (e : Engine) (c : Candidate) (t : TriedStream) :
    Trace → Except StreamError StreamResult → Prop
  | served : t.err = none →
      EndsStream e c t [] (.ok ⟨c.providerName, c.model, t.attempts, t.usage, t.duration⟩)
  | broken (err : CallError) : t.err = some (.call err) → t.flushed = true →
      EndsStream e c t [] (.error ⟨.call err, t.attempts, true⟩)
  | terminal (err : CallError) : t.err = some (.call err) → t.flushed = false →
      e.classify c.providerName err = .terminal →
      EndsStream e c t [] (.error ⟨.call err, t.attempts, false⟩)
  | cancelled (err : CallError) (ce : CtxError) : t.err = some (.call err) → t.flushed = false →
      e.classify c.providerName err ≠ .terminal →
      EndsStream e c t [⟨.ctxErr, some ce⟩] (.error ⟨.ctx ce, t.attempts, false⟩)

inductive ResumesStream (e : Engine) (c : Candidate) (p : Progress) (t : TriedStream) :
    Trace → Progress → Prop
  | rejected : t.err = some .breakerRejected →
      ResumesStream e c p t [] { p with attempts := t.attempts, duration := t.duration }
  | reselect (err : CallError) : t.err = some (.call err) → t.flushed = false →
      e.classify c.providerName err ≠ .terminal →
      ResumesStream e c p t [⟨.ctxErr, none⟩] ⟨t.attempts, t.duration, .call err⟩

/-- The rounds of ExecuteStream in one tier. -/
abbrev StreamsTier (e : Engine) (req : CanonicalRequest) (tier : Tier) :
    List String → Progress → Trace → TierEnd (Except StreamError StreamResult) → Prop :=
  TierRun e tier (fun c p => Runs (e.tryCandidateStream c req p.attempts p.duration)) (EndsStream e)
    (ResumesStream e)

abbrev Streams (e : Engine) (req : CanonicalRequest) :
    List Tier → Progress → Trace → Except StreamError StreamResult → Prop :=
  TiersRun (e.StreamsTier req · []) fun p => .error ⟨p.lastErr, p.attempts, false⟩

variable {e : Engine} {tier : Tier} {tried : List String} {req : CanonicalRequest} {c : Candidate}
  {fuel : Nat} {p : Progress} {tr : Trace}

/-- A pick uses up one of the candidates. -/
theorem untried_after_pick (enough : untried tier tried < fuel + 1)
    (pick : Runs (e.pickFromTier tier tried) tr (some c)) :
    untried tier (c.providerName :: tried) < fuel := by
  obtain ⟨member, fresh, -⟩ := pickFromTier_some pick
  exact lt_of_lt_of_le (untried_decreases member fresh) (Nat.le_of_lt_succ enough)

theorem untried_fresh (tier : Tier) : untried tier [] < tier.candidates.length + 1 :=
  Nat.lt_succ_of_le (untried_le tier [])

theorem tryTier_rounds {out : TierEnd (Except Error Result)} (enough : untried tier tried < fuel)
    (h : Runs (e.tryTier tier req fuel tried p) tr out) : e.ExecutesTier req tier tried p tr out := by
  induction fuel generalizing tried p tr with
  | zero => exact absurd enough (Nat.not_lt_zero _)
  | succ fuel ih =>
      obtain ⟨pick, rfl⟩ | ⟨c, tr₁, t, tr₂, tr₃, rfl, pick, visit, after⟩ := tryTier_succ h
      · exact .left pick
      · have fewer := untried_after_pick enough pick
        cases after with
        | served done => exact .ended pick visit (.served done)
        | rejected refused again => exact .resumed pick visit (.rejected refused) (ih fewer again)
        | terminal err failed fatal => exact .ended pick visit (.terminal err failed fatal)
        | cancelled err ce failed soft => exact .ended pick visit (.cancelled err ce failed soft)
        | reselect err failed soft again =>
            exact .resumed pick visit (.reselect err failed soft) (ih fewer again)

theorem tryTierStream_rounds {out : TierEnd (Except StreamError StreamResult)}
    (enough : untried tier tried < fuel)
    (h : Runs (e.tryTierStream tier req fuel tried p) tr out) :
    e.StreamsTier req tier tried p tr out := by
  induction fuel generalizing tried p tr with
  | zero => exact absurd enough (Nat.not_lt_zero _)
  | succ fuel ih =>
      obtain ⟨pick, rfl⟩ | ⟨c, tr₁, t, tr₂, tr₃, rfl, pick, visit, after⟩ := tryTierStream_succ h
      · exact .left pick
      · have fewer := untried_after_pick enough pick
        cases after with
        | served done => exact .ended pick visit (.served done)
        | rejected refused again => exact .resumed pick visit (.rejected refused) (ih fewer again)
        | broken err failed committed => exact .ended pick visit (.broken err failed committed)
        | terminal err failed unflushed fatal =>
            exact .ended pick visit (.terminal err failed unflushed fatal)
        | cancelled err ce failed unflushed soft =>
            exact .ended pick visit (.cancelled err ce failed unflushed soft)
        | reselect err failed unflushed soft again =>
            exact .resumed pick visit (.reselect err failed unflushed soft) (ih fewer again)

theorem TierRun.not_outOfFuel {τ ρ : Type} {visits : Candidate → Progress → Trace → τ → Prop}
    {ends : Candidate → τ → Trace → ρ → Prop}
    {resumes : Candidate → Progress → τ → Trace → Progress → Prop} {out : TierEnd ρ}
    (h : TierRun e tier visits ends resumes tried p tr out) : out ≠ .outOfFuel := by
  induction h with
  | left pick => simp
  | ended pick visit last => simp
  | resumed pick visit next rest ih => exact ih

/-- Execute returns, after rounds in one tier after the other. -/
theorem executeFrom_rounds {tiers : List Tier} {r : Option (Except Error Result)}
    (h : Runs (e.executeFrom req tiers p) tr r) : ∃ out, r = some out ∧ e.Executes req tiers p tr out := by
  induction tiers generalizing p tr with
  | nil =>
      obtain ⟨rfl, rfl⟩ := runs_pure.mp h
      exact ⟨_, rfl, .exhausted p⟩
  | cons tier tiers ih =>
      rw [executeFrom, runs_bind] at h
      obtain ⟨tr₁, ended, tr₂, rfl, loop, rest⟩ := h
      have rounds := tryTier_rounds (untried_fresh tier) loop
      cases ended with
      | advance p' =>
          obtain ⟨out, rfl, later⟩ := ih rest
          exact ⟨out, rfl, .advanced rounds later⟩
      | returned out =>
          obtain ⟨rfl, rfl⟩ := runs_pure.mp rest
          rw [List.append_nil]
          exact ⟨out, rfl, .returned rounds⟩
      | outOfFuel => exact absurd rfl rounds.not_outOfFuel

theorem executeStreamFrom_rounds {tiers : List Tier} {r : Option (Except StreamError StreamResult)}
    (h : Runs (e.executeStreamFrom req tiers p) tr r) :
    ∃ out, r = some out ∧ e.Streams req tiers p tr out := by
  induction tiers generalizing p tr with
  | nil =>
      obtain ⟨rfl, rfl⟩ := runs_pure.mp h
      exact ⟨_, rfl, .exhausted p⟩
  | cons tier tiers ih =>
      rw [executeStreamFrom, runs_bind] at h
      obtain ⟨tr₁, ended, tr₂, rfl, loop, rest⟩ := h
      have rounds := tryTierStream_rounds (untried_fresh tier) loop
      cases ended with
      | advance p' =>
          obtain ⟨out, rfl, later⟩ := ih rest
          exact ⟨out, rfl, .advanced rounds later⟩
      | returned out =>
          obtain ⟨rfl, rfl⟩ := runs_pure.mp rest
          rw [List.append_nil]
          exact ⟨out, rfl, .returned rounds⟩
      | outOfFuel => exact absurd rfl rounds.not_outOfFuel

theorem executesTier_answers {out : TierEnd (Except Error Result)}
    (budget : 0 < e.cfg.maxAttemptsPerProvider.toInt.toNat)
    (h : e.ExecutesTier req tier tried p tr out) :
    ∀ result, out = .returned (.ok result) → ∃ resp, result.response = some resp := by
  induction h with
  | left pick =>
      intro result same
      cases same
  | ended pick visit last =>
      intro result same
      cases same
      cases last with
      | served done =>
          obtain ⟨-, rfl⟩ | ⟨tr', -, loop⟩ := tryCandidate_cases visit
          · cases done
          · exact attemptLoop_answers (fun _ => ⟨rfl, budget⟩) loop done
  | resumed pick visit next rest ih => exact ih

theorem executes_answers {tiers : List Tier} {out : Except Error Result}
    (budget : 0 < e.cfg.maxAttemptsPerProvider.toInt.toNat) (h : e.Executes req tiers p tr out) :
    ∀ result, out = .ok result → ∃ resp, result.response = some resp := by
  induction h with
  | exhausted p =>
      intro result same
      cases same
  | returned rounds =>
      intro result same
      cases same
      exact executesTier_answers budget rounds result rfl
  | advanced rounds later ih => exact ih

/-- Execute returns, and with a positive attempt budget a success carries a response. -/
theorem execute_returns {tiers : List Tier} {tr : Trace} {r : Option (Except Error Result)}
    (h : Runs (e.execute tiers req) tr r) :
    ∃ out, r = some out ∧ (0 < e.cfg.maxAttemptsPerProvider.toInt.toNat →
      ∀ result, out = .ok result → ∃ resp, result.response = some resp) := by
  obtain ⟨out, rfl, executes⟩ := executeFrom_rounds h
  exact ⟨out, rfl, fun budget => executes_answers budget executes⟩

end Engine
end Gateway.Retry
