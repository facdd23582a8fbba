import InferenceGateway.Breaker.World
import InferenceGateway.Retry.Visits

/-! Execute, ExecuteStream and the prober keep to the custody protocol: whatever they are
told, they end without holding an admission. -/
namespace Gateway.Breaker
open Gateway.Providers Gateway.Retry Interaction
open Interaction.Program hiding pure perform

variable {e : Engine} {tier : Tier} {tried : List String} {req providerReq : CanonicalRequest}
  {c : Candidate} {held : Option Admission}

/-- Ends empty-handed. -/
def Returned {α : Type} (_ : α) (held : Option Admission) : Prop := held = none

/-- What is held, if anything, is an admission to this candidate's breaker. -/
def HeldFor (c : Candidate) (held : Option Admission) : Prop :=
  ∀ a, held = some a → a.key = key c.providerName c.model

theorem heldFor_none : HeldFor c none := by
  intro a same
  cases same

theorem waitBefore_follows {cfg : Retry.Config} {attempt : Nat} {lastErr : Option CallError} :
    Follows (custody e) (fun go held' => held' = held ∧ (attempt = 0 → go = true))
      (waitBefore cfg attempt lastErr) held := by
  have idle : Follows (custody e)
      (fun go held' => held' = held ∧ ∃ tr, Runs (waitBefore cfg attempt lastErr) tr go)
      (waitBefore cfg attempt lastErr) held := by
    refine Follows.of_runs (I := fun held' => held' = held) ?_ rfl
    rintro tr a run ⟨op, reply⟩ member _ rfl
    have wait := waitBefore_waits run _ member
    cases op <;> first | exact ⟨trivial, fun _ => rfl⟩ | cases wait
  apply idle.mono
  rintro go held' ⟨same, tr, run⟩
  refine ⟨same, ?_⟩
  intro first
  subst first
  exact (waitBefore_first run).2

theorem recordSuccess_follows {α : Type} {final : α → Option Admission → Prop}
    {f : Unit → EngineM α} (own : HeldFor c held) (rest : Follows (custody e) final (f ()) none) :
    Follows (custody e) final (perform (.recordSuccess c.providerName c.model) >>= f) held :=
  Follows.perform_bind fun _ => ⟨own, fun _ => rest⟩

theorem recordFailure_follows {α : Type} {final : α → Option Admission → Prop}
    {f : Unit → EngineM α} (own : HeldFor c held) (rest : Follows (custody e) final (f ()) none) :
    Follows (custody e) final (perform (.recordFailure c.providerName c.model) >>= f) held :=
  Follows.perform_bind fun _ => ⟨own, fun _ => rest⟩

/-- What is held after a reply that may have lost the admission. -/
def keep (e : Engine) (held : Option Admission) (ev : Event Op Op.Reply) : Option Admission :=
  if unrecorded e ev then none else held

theorem keep_heldFor {ev : Event Op Op.Reply} (own : HeldFor c held) : HeldFor c (keep e held ev) := by
  unfold keep
  split
  · exact heldFor_none
  · exact own

theorem attemptLoop_follows {remaining attempt : Nat} {lastErr : Option CallError}
    {attempts : List Attempt} {duration : Duration} (own : HeldFor c held)
    (fresh : held ≠ none → attempt = 0 ∧ 0 < remaining) :
    Follows (custody e) Returned
      (e.attemptLoop c providerReq remaining attempt lastErr attempts duration) held := by
  induction remaining generalizing attempt lastErr attempts duration held with
  | zero =>
      by_contra unreturned
      exact absurd (fresh unreturned).2 (Nat.lt_irrefl 0)
  | succ remaining ih =>
      rw [Engine.attemptLoop]
      apply Follows.bind waitBefore_follows
      rintro go held' ⟨rfl, first⟩
      cases go with
      | false =>
          by_contra unreturned
          exact absurd (first (fresh unreturned).1) (by decide)
      | true =>
          apply Follows.perform_bind
          intro reply
          refine ⟨trivial, ?_⟩
          intro w
          have still : HeldFor c (keep e held' ⟨.complete c.providerName providerReq, reply⟩) :=
            keep_heldFor own
          change Follows _ _ _ (keep e held' ⟨.complete c.providerName providerReq, reply⟩)
          cases hr : CompleteReply.result reply with
          | ok resp =>
              simp only
              exact recordSuccess_follows still rfl
          | error err =>
              simp only
              cases hc : e.classify c.providerName err with
              | terminal =>
                  simp only
                  apply Follows.pure
                  simp [Returned, keep, unrecorded, hr, hc]
              | fallback =>
                  simp only
                  exact recordFailure_follows still rfl
              | retryable =>
                  simp only
                  refine recordFailure_follows still (ih heldFor_none ?_)
                  intro absurd
                  exact (absurd rfl).elim

/-- A relay nobody refused ends with the call's own error and what was held before; a
refused one has lost the admission. -/
theorem relayDeltas_follows {name model : String} {own : Option CallError} {ds : List Delta}
    {usage : Option Usage} {flushed : Bool} :
    Follows (custody e) (fun out held' => held' = none ∨ (held' = held ∧ out.err = own ∧
        (out.flushed = true → flushed = true ∨ ds.any (fun d => d.content != "") = true)))
      (Engine.relayDeltas name model own ds usage flushed) held := by
  induction ds generalizing usage flushed held with
  | nil => exact Follows.pure (.inr ⟨rfl, rfl, fun reached => .inl reached⟩)
  | cons d ds ih =>
      apply Follows.perform_bind
      intro refused
      refine ⟨trivial, ?_⟩
      intro w
      cases refused with
      | some failure => exact Follows.pure (.inl rfl)
      | none =>
          apply ih.mono
          rintro out held' (lost | ⟨same, err, reached⟩)
          · exact .inl lost
          · refine .inr ⟨same, err, ?_⟩
            intro outFlushed
            rcases reached outFlushed with already | later
            · rcases Bool.or_eq_true_iff.mp already with before | here
              · exact .inl before
              · exact .inr (by simp [here])
            · exact .inr (by simp [later])

/-- After a relay, an outcome that is not recorded has already cost the admission. -/
theorem relay_follows (own : HeldFor c held) (reply : StreamReply) :
    Follows (custody e) (fun relayed held' => HeldFor c held' ∧ ∀ err, relayed.err = some err →
        relayed.flushed = true ∨ e.classify c.providerName err = .terminal → held' = none)
      (Engine.relayDeltas c.providerName c.model reply.err reply.deltas none false)
      (keep e held ⟨.stream c.providerName providerReq, reply⟩) := by
  apply relayDeltas_follows.mono
  rintro relayed held' (rfl | ⟨rfl, same, reached⟩)
  · exact ⟨heldFor_none, fun _ _ _ => rfl⟩
  · refine ⟨keep_heldFor own, ?_⟩
    intro err failed silent
    have failed' : StreamReply.err reply = some err := same.symm.trans failed
    unfold keep
    apply if_pos
    simp only [unrecorded, failed', Bool.or_eq_true, decide_eq_true_eq]
    rcases silent with flushed | terminal
    · rcases reached flushed with absurd | content
      · cases absurd
      · exact .inl content
    · exact .inr terminal

theorem streamLoop_follows {remaining attempt : Nat} {lastErr : Option CallError}
    {attempts : List Attempt} {duration : Duration} (own : HeldFor c held)
    (fresh : held ≠ none → attempt = 0 ∧ 0 < remaining) :
    Follows (custody e) Returned
      (e.streamLoop c providerReq remaining attempt lastErr false attempts duration) held := by
  induction remaining generalizing attempt lastErr attempts duration held with
  | zero =>
      by_contra unreturned
      exact absurd (fresh unreturned).2 (Nat.lt_irrefl 0)
  | succ remaining ih =>
      rw [Engine.streamLoop]
      apply Follows.bind waitBefore_follows
      rintro go held' ⟨rfl, first⟩
      cases go with
      | false =>
          by_contra unreturned
          exact absurd (first (fresh unreturned).1) (by decide)
      | true =>
          apply Follows.perform_bind
          intro reply
          refine ⟨trivial, ?_⟩
          intro w
          change Follows _ _ _ (keep e held' ⟨.stream c.providerName providerReq, reply⟩)
          apply Follows.bind (relay_follows own reply)
          rintro relayed held'' ⟨still, lost⟩
          simp only [Bool.false_or]
          cases hr : relayed.err with
          | none =>
              simp only
              exact recordSuccess_follows still rfl
          | some err =>
              simp only
              cases hf : relayed.flushed with
              | true =>
                  simp only [if_true]
                  exact Follows.pure (lost err hr (.inl hf))
              | false =>
                  simp only [Bool.false_eq_true, if_false]
                  cases hc : e.classify c.providerName err with
                  | terminal =>
                      simp only
                      exact Follows.pure (lost err hr (.inr hc))
                  | fallback =>
                      simp only
                      exact recordFailure_follows still rfl
                  | retryable =>
                      simp only
                      refine recordFailure_follows still (ih heldFor_none ?_)
                      intro absurd
                      exact (absurd rfl).elim

/-- The visit of a candidate: Allow, then a loop that gives the admission back. -/
theorem visit_follows {α : Type} {refused : α} {loop : EngineM α}
    (admitted : ∀ held, HeldFor c held → Follows (custody e) Returned loop held) :
    Follows (custody e) Returned (do
      let allowed : Bool ← perform (.allow c.providerName c.model)
      if !allowed then pure refused else loop) none := by
  apply Follows.perform_bind
  intro allowed
  refine ⟨rfl, ?_⟩
  intro w
  cases allowed with
  | false => exact Follows.pure rfl
  | true =>
      apply admitted
      intro a same
      cases same
      rfl

theorem tryCandidate_follows (budget : 0 < e.cfg.maxAttemptsPerProvider.toInt.toNat)
    {attempts : List Attempt} {duration : Duration} :
    Follows (custody e) Returned (e.tryCandidate c req attempts duration) none :=
  visit_follows fun _ own => attemptLoop_follows own fun _ => ⟨rfl, budget⟩

theorem tryCandidateStream_follows (budget : 0 < e.cfg.maxAttemptsPerProvider.toInt.toNat)
    {attempts : List Attempt} {duration : Duration} :
    Follows (custody e) Returned (e.tryCandidateStream c req attempts duration) none :=
  visit_follows fun _ own => streamLoop_follows own fun _ => ⟨rfl, budget⟩

/-- Nothing is held between visits. -/
theorem custody_idles : Idles (custody e) (· = none) := by
  rintro op reply _ asks rfl
  rcases asks with poll | rfl
  · cases op <;> first | exact ⟨trivial, fun _ => rfl⟩ | cases poll
  · exact ⟨trivial, fun _ => rfl⟩

theorem probe_follows {providers : String → Option Provider} {name model : String} :
    Follows (custody e) Returned (probe providers name model) none := by
  unfold probe
  apply Follows.perform_bind
  intro state
  refine ⟨trivial, fun _ => ?_⟩
  change Follows _ _ _ none
  split
  · exact Follows.pure rfl
  · apply Follows.perform_bind
    intro ready
    refine ⟨trivial, fun _ => ?_⟩
    change Follows _ _ _ none
    split
    · exact Follows.pure rfl
    · split
      · exact Follows.pure rfl
      · split
        · exact Follows.pure rfl
        · refine visit_follows (c := ⟨name, model, 0⟩) ?_
          intro held own
          apply Follows.perform_bind
          intro err
          refine ⟨trivial, fun _ => ?_⟩
          change Follows _ _ _ held
          cases err with
          | some failure => exact fun _ => ⟨own, fun _ => rfl⟩
          | none => exact fun _ => ⟨own, fun _ => rfl⟩

theorem probeAll_follows {providers : String → Option Provider} {breakers : List (String × String)} :
    Follows (custody e) Returned (probeAll providers breakers) none := by
  induction breakers with
  | nil => exact Follows.pure rfl
  | cons b breakers ih =>
      apply Follows.bind probe_follows
      rintro _ held' rfl
      exact ih

/-- Every process the gateway starts keeps to the protocol and ends empty-handed. -/
theorem job_follows (budget : 0 < e.cfg.maxAttemptsPerProvider.toInt.toNat) (job : Job) :
    Follows (custody e) Returned (job.program e) none := by
  cases job with
  | execute tiers req =>
      apply Follows.bind (Engine.execute_rests custody_idles (by
        rintro c attempts duration _ rfl
        exact tryCandidate_follows budget) tiers rfl)
      rintro _ held' rfl
      exact Follows.pure rfl
  | executeStream tiers req =>
      apply Follows.bind (Engine.executeStream_rests custody_idles (by
        rintro c attempts duration _ rfl
        exact tryCandidateStream_follows budget) tiers rfl)
      rintro _ held' rfl
      exact Follows.pure rfl
  | probeOnce =>
      apply Follows.perform_bind
      intro breakers
      exact ⟨trivial, fun _ => probeAll_follows⟩

end Gateway.Breaker
