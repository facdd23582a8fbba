import InferenceGateway.Retry.Engine

/-! Where the response of Execute comes from. -/
namespace Gateway.Retry.Engine
open Gateway.Providers Interaction Interaction.Program

variable {e : Engine} {P : CanonicalResponse → Prop}

/-- What a successful Complete call answered. -/
def Completing (P : CanonicalResponse → Prop) (ev : Event Op Op.Reply) : Prop :=
  ∀ name req reply answer, ev = ⟨.complete name req, reply⟩ → reply.result = .ok answer → P answer

theorem attemptLoop_given (c : Candidate) (providerReq : CanonicalRequest) (remaining attempt : Nat)
    (lastErr : Option CallError) (attempts : List Attempt) (duration : Duration) :
    (e.attemptLoop c providerReq remaining attempt lastErr attempts duration).Given (Completing P)
      (fun t => ∀ answer, t.resp = some answer → P answer) := by
  induction remaining generalizing attempt lastErr attempts duration with
  | zero => nofun
  | succ remaining ih =>
      refine (Given.any (fun _ => trivial) (waitBefore e.cfg attempt lastErr)).bind ?_
      intro go _
      cases go with
      | false => nofun
      | true =>
          refine Given.perform_bind ?_
          intro reply answered
          cases result : CompleteReply.result reply with
          | ok resp =>
              simp only
              refine Given.perform_bind fun _ _ => ?_
              rintro answer ⟨⟩
              exact answered _ _ _ _ rfl result
          | error err =>
              simp only
              split
              · nofun
              · exact Given.perform_bind fun _ _ => nofun
              · exact Given.perform_bind fun _ _ => ih _ _ _ _

theorem tryCandidate_given (c : Candidate) (req : CanonicalRequest) (attempts : List Attempt)
    (duration : Duration) :
    (e.tryCandidate c req attempts duration).Given (Completing P)
      (fun t => ∀ answer, t.resp = some answer → P answer) := by
  refine Given.perform_bind fun allowed _ => ?_
  cases allowed with
  | false => nofun
  | true => exact attemptLoop_given _ _ _ _ _ _ _

/-- The response of a run that ended well, if it has one. -/
def Answers (P : CanonicalResponse → Prop) (out : Except Error Result) : Prop :=
  ∀ result answer, out = .ok result → result.response = some answer → P answer

theorem tryTier_given (tier : Tier) (req : CanonicalRequest) (fuel : Nat) (tried : List String)
    (p : Progress) :
    (e.tryTier tier req fuel tried p).Given (Completing P)
      (fun ended => ∀ out, ended = .returned out → Answers P out) := by
  induction fuel generalizing tried p with
  | zero => nofun
  | succ fuel ih =>
      refine (Given.any (fun _ => trivial) (e.pickFromTier tier tried)).bind ?_
      intro picked _
      cases picked with
      | none => nofun
      | some c =>
          refine (tryCandidate_given c req p.attempts p.duration).bind ?_
          intro t answered
          rcases failed : t.err with - | (- | err)
          · simp only
            rintro out ⟨⟩ result answer ⟨⟩ same
            exact answered answer same
          · simp only
            exact ih _ _
          · simp only
            split
            · rintro out ⟨⟩
              nofun
            · refine Given.perform_bind fun ctxErr _ => ?_
              cases ctxErr with
              | some ce =>
                  rintro out ⟨⟩
                  nofun
              | none => exact ih _ _
            · refine Given.perform_bind fun ctxErr _ => ?_
              cases ctxErr with
              | some ce =>
                  rintro out ⟨⟩
                  nofun
              | none => exact ih _ _

theorem executeFrom_given (req : CanonicalRequest) (tiers : List Tier) (p : Progress) :
    (e.executeFrom req tiers p).Given (Completing P) (fun out => ∀ r, out = some r → Answers P r) := by
  induction tiers generalizing p with
  | nil =>
      rintro r ⟨⟩
      nofun
  | cons tier tiers ih =>
      refine (tryTier_given tier req _ [] p).bind ?_
      intro ended answered
      cases ended with
      | advance p => exact ih p
      | returned out =>
          rintro r ⟨⟩
          exact answered out rfl
      | outOfFuel => nofun

/-- Execute answers with what a Complete call answered. -/
theorem execute_answers {tiers : List Tier} {req : CanonicalRequest} {tr : Trace} {result : Result}
    {answer : CanonicalResponse} (run : Runs (e.execute tiers req) tr (some (.ok result)))
    (met : ∀ ev ∈ tr, Completing P ev) (has : result.response = some answer) : P answer :=
  (executeFrom_given req tiers {}).runs run met _ rfl result answer rfl has

end Gateway.Retry.Engine
