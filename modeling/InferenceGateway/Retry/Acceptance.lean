import InferenceGateway.Retry.Statusless

/-! A callback that refuses a delta. Its error has no status, so where Classify gives up on
status zero the run ends there, and a run that succeeded had every delta accepted. -/
namespace Gateway.Retry
open Gateway.Providers Interaction Interaction.Program

/-- No callback was refused. -/
def Accepting (tr : Trace) : Prop := ∀ ev ∈ tr, refusal ev = none

theorem Accepting.append {tr₁ tr₂ : Trace} (h : Accepting tr₁) (later : Accepting tr₂) :
    Accepting (tr₁ ++ tr₂) := List.forall_mem_append.mpr ⟨h, later⟩

theorem Accepting.cons {ev : Event Op Op.Reply} {tr : Trace} (h : refusal ev = none)
    (later : Accepting tr) : Accepting (ev :: tr) := List.forall_mem_cons.mpr ⟨h, later⟩

theorem Accepting.nil : Accepting [] := by simp [Accepting]

theorem accepting_of_waits {tr : Trace} (h : ∀ ev ∈ tr, ev.1.isWait = true) : Accepting tr := by
  rintro ⟨op, reply⟩ member
  have wait := h _ member
  cases op <;> first | rfl | cases wait

theorem accepting_of_polls {tr : Trace} (h : ∀ ev ∈ tr, ev.1.isPoll = true) : Accepting tr := by
  rintro ⟨op, reply⟩ member
  have poll := h _ member
  cases op <;> first | rfl | cases poll

namespace Engine
variable {e : Engine} {tier : Tier} {tried : List String} {req providerReq : CanonicalRequest}
  {c : Candidate}

/-- Classify returns Terminal for status zero, whatever the error. -/
def GivesUpOnZero (e : Engine) : Prop :=
  ∀ name p, e.providers name = some p → ∀ err, p.classify err 0 = .terminal

theorem GivesUpOnZero.classify (h : e.GivesUpOnZero) {err : CallError} (name : String)
    (statusless : err.asAPIError = none) : e.classify name err = .terminal := by
  unfold Engine.classify
  cases wired : e.providers name with
  | none => rfl
  | some p =>
      have status : err.status = 0 := by simp only [CallError.status, statusless]
      simp only [status, h name p wired err]

theorem relayDeltas_accepting {name model : String} {err : Option CallError} {ds : List Delta}
    {usage : Option Usage} {flushed : Bool} {tr : Trace} {out : Relayed} (client : ClientErrors tr)
    (h : Runs (relayDeltas name model err ds usage flushed) tr out) :
    Accepting tr ∨ ∃ failure, out.err = some failure ∧ failure.asAPIError = none := by
  induction ds generalizing usage flushed tr with
  | nil =>
      obtain ⟨rfl, -⟩ := runs_pure.mp h
      exact .inl .nil
  | cons d ds ih =>
      obtain ⟨refused, tr', rfl, rest⟩ := runs_perform_bind.mp h
      cases refused with
      | some failure =>
          obtain ⟨rfl, rfl⟩ := runs_pure.mp rest
          exact .inr ⟨failure, rfl, client _ List.mem_cons_self failure rfl⟩
      | none =>
          rcases ih (client.of_subset (List.subset_cons_self _ _)) rest with accepted | failed
          · exact .inl (.cons rfl accepted)
          · exact .inr failed

theorem streamLoop_accepting (gives : e.GivesUpOnZero) {remaining attempt : Nat}
    {lastErr : Option CallError} {flushed : Bool} {attempts : List Attempt} {duration : Duration}
    {tr : Trace} {t : TriedStream} (client : ClientErrors tr)
    (h : Runs (e.streamLoop c providerReq remaining attempt lastErr flushed attempts duration) tr t) :
    Accepting tr ∨ ∃ failure, t.err = some (.call failure) ∧
      (t.flushed = true ∨ e.classify c.providerName failure = .terminal) := by
  induction remaining generalizing attempt lastErr flushed attempts duration tr with
  | zero =>
      obtain ⟨rfl, -⟩ := runs_pure.mp h
      exact .inl .nil
  | succ remaining ih =>
      obtain ⟨go, tr₁, tr₂, rfl, wait, ⟨-, rfl, -⟩ |
        ⟨-, reply, relayed, tr₃, tr₄, rfl, relay, after⟩⟩ := streamLoop_succ h
      · exact .inl ((accepting_of_waits (waitBefore_waits wait)).append .nil)
      · have waits := accepting_of_waits (waitBefore_waits wait)
        have own : ClientErrors tr₃ := client.of_subset (by intro ev member; simp [member])
        generalize hr : relayed.err = failure at after
        rcases relayDeltas_accepting own relay with accepted | ⟨refused, failed, statusless⟩
        · have before {tail : Trace} (h : Accepting tail) : Accepting
              (tr₁ ++ ⟨.stream c.providerName providerReq, reply⟩ :: (tr₃ ++ tail)) :=
            waits.append (.cons rfl (accepted.append h))
          cases after with
          | success => exact .inl (before (.cons rfl .nil))
          | broken err _ => exact .inl (before .nil)
          | terminal err _ _ => exact .inl (before .nil)
          | fallback err _ _ => exact .inl (before (.cons rfl .nil))
          | @retry err tr t _ _ again =>
              rcases ih (client.of_subset (by intro ev member; simp [member])) again with
                later | ended
              · exact .inl (before (.cons rfl later))
              · exact .inr ended
        · rw [failed] at hr
          subst hr
          have fatal := gives.classify c.providerName statusless
          cases after with
          | broken err _ => exact .inr ⟨refused, rfl, .inl rfl⟩
          | terminal err _ _ => exact .inr ⟨refused, rfl, .inr fatal⟩
          | fallback err _ soft => rw [fatal] at soft; cases soft
          | retry err _ soft again => rw [fatal] at soft; cases soft

theorem tryCandidateStream_accepting (gives : e.GivesUpOnZero) {attempts : List Attempt}
    {duration : Duration} {tr : Trace} {t : TriedStream} (client : ClientErrors tr)
    (h : Runs (e.tryCandidateStream c req attempts duration) tr t) :
    Accepting tr ∨ ∃ failure, t.err = some (.call failure) ∧
      (t.flushed = true ∨ e.classify c.providerName failure = .terminal) := by
  obtain ⟨rfl, -⟩ | ⟨tr', rfl, loop⟩ := tryCandidateStream_cases h
  · exact .inl (.cons rfl .nil)
  · rcases streamLoop_accepting gives (client.of_subset (List.subset_cons_self _ _)) loop with
      accepted | ended
    · exact .inl (.cons rfl accepted)
    · exact .inr ended

/-- After a refused callback the tier is not asked again. -/
theorem ResumesStream.accepting (gives : e.GivesUpOnZero) {visit next : Trace} {t : TriedStream}
    {p p' : Progress} (client : ClientErrors visit)
    (run : Runs (e.tryCandidateStream c req p.attempts p.duration) visit t)
    (h : ResumesStream e c p t next p') : Accepting (visit ++ next) := by
  have after : Accepting next := by
    cases h with
    | rejected refused => exact .nil
    | reselect err failed _ soft => exact .cons rfl .nil
  rcases tryCandidateStream_accepting gives client run with accepted | ⟨failure, failed, fatal⟩
  · exact accepted.append after
  · cases h with
    | rejected refused => cases failed.symm.trans refused
    | reselect err failed' unflushed soft =>
        cases failed.symm.trans failed'
        rcases fatal with flushed | terminal
        · cases unflushed.symm.trans flushed
        · exact absurd terminal soft

theorem EndsStream.accepting (gives : e.GivesUpOnZero) {visit last : Trace} {t : TriedStream}
    {p : Progress} {r : Except StreamError StreamResult} (client : ClientErrors visit)
    (run : Runs (e.tryCandidateStream c req p.attempts p.duration) visit t)
    (h : EndsStream e c t last r) : Accepting (visit ++ last) ∨ ∃ failure, r = .error failure := by
  cases h with
  | served done =>
      rcases tryCandidateStream_accepting gives client run with accepted | ⟨failure, failed, -⟩
      · exact .inl (accepted.append .nil)
      · cases failed.symm.trans done
  | broken err _ _ => exact .inr ⟨_, rfl⟩
  | terminal err _ _ _ => exact .inr ⟨_, rfl⟩
  | cancelled err ce _ _ _ => exact .inr ⟨_, rfl⟩

theorem streamsTier_accepting (gives : e.GivesUpOnZero) {p : Progress} {tr : Trace}
    {out : TierEnd (Except StreamError StreamResult)} (client : ClientErrors tr)
    (h : e.StreamsTier req tier tried p tr out) :
    Accepting tr ∨ ∃ failure, out = .returned (.error failure) := by
  induction h with
  | left pick => exact .inl (accepting_of_polls (pickFromTier_polls pick))
  | ended pick run ends =>
      have polls := accepting_of_polls (pickFromTier_polls pick)
      refine (ends.accepting gives client.of_append.2.of_append.1 run).imp polls.append ?_
      exact Exists.imp fun _ => congrArg TierEnd.returned
  | resumed pick run resumes later ih =>
      have polls := accepting_of_polls (pickFromTier_polls pick)
      obtain ⟨visited, rest⟩ := client.of_append.2.of_append
      have round := polls.append (resumes.accepting gives visited run)
      refine (ih rest.of_append.2).imp_left fun more => ?_
      have whole := round.append more
      rw [List.append_assoc, List.append_assoc] at whole
      exact whole

theorem streams_accepting (gives : e.GivesUpOnZero) {tiers : List Tier} {p : Progress} {tr : Trace}
    {out : Except StreamError StreamResult} (client : ClientErrors tr)
    (h : e.Streams req tiers p tr out) : Accepting tr ∨ ∃ failure, out = .error failure := by
  induction h with
  | exhausted p => exact .inl .nil
  | returned rounds =>
      refine (streamsTier_accepting gives client rounds).imp_right (Exists.imp fun _ same => ?_)
      cases same
      rfl
  | advanced rounds later ih =>
      obtain ⟨early, rest⟩ := client.of_append
      rcases streamsTier_accepting gives early rounds with accepted | ⟨failure, absurd⟩
      · exact (ih rest).imp_left accepted.append
      · cases absurd

/-- A refused callback leaves only one way out: an error. -/
theorem executeStreamFrom_accepting (gives : e.GivesUpOnZero) {tiers : List Tier} {p : Progress}
    {tr : Trace} {r : Option (Except StreamError StreamResult)} (client : ClientErrors tr)
    (h : Runs (e.executeStreamFrom req tiers p) tr r) :
    Accepting tr ∨ ∃ failure, r = some (.error failure) := by
  obtain ⟨out, rfl, streams⟩ := executeStreamFrom_rounds h
  exact (streams_accepting gives client streams).imp_right (Exists.imp fun _ => congrArg some)

end Engine
end Gateway.Retry
