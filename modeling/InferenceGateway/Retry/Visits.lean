import InferenceGateway.Interaction.Protocol
import InferenceGateway.Retry.Steps

/-! Execute and ExecuteStream as a sequence of visits to candidates. Between visits they only
poll breakers and their context, so a protocol that is at rest between visits is followed
throughout if every visit follows it. -/
namespace Gateway.Retry
open Gateway.Providers Interaction
open Interaction.Program hiding pure perform

instance (op : Op) : Nonempty op.Reply :=
  ⟨calm (fun _ => ⟨.error (.other ""), 0⟩) (fun _ => ⟨[], none, 0⟩) [] op⟩

variable {C M : Type} {P : Protocol Op Op.Reply C M} {Rest : M → Prop} {m : M}

/-- Polls and context checks are legal at rest and do not end it. -/
def Idles (P : Protocol Op Op.Reply C M) (Rest : M → Prop) : Prop :=
  ∀ op reply m, (op.isPoll = true ∨ op = .ctxErr) → Rest m →
    P.legal m ⟨op, reply⟩ ∧ ∀ c, Rest (P.advance c m ⟨op, reply⟩)

namespace Engine
variable {e : Engine} {tier : Tier} {tried : List String} {req : CanonicalRequest}

theorem pickFromTier_rests (idle : Idles P Rest) (rest : Rest m) :
    Follows P (fun _ => Rest) (e.pickFromTier tier tried) m := by
  have polls : Follows P (fun picked m' => Rest m' ∧ ∃ tr, Runs (e.pickFromTier tier tried) tr picked)
      (e.pickFromTier tier tried) m := by
    apply Follows.of_runs _ rest
    rintro tr a run ⟨op, reply⟩ member m here
    exact idle op reply m (.inl (pickFromTier_polls run _ member)) here
  apply polls.mono
  rintro picked m' ⟨still, -⟩
  exact still

theorem ctxErr_rests {α : Type} {f : Option CtxError → EngineM α} (idle : Idles P Rest)
    (rest : Rest m) (next : ∀ r m, Rest m → Follows P (fun _ => Rest) (f r) m) :
    Follows P (fun _ => Rest) (perform .ctxErr >>= f) m := by
  apply Follows.perform_bind
  intro r
  obtain ⟨legal, still⟩ := idle .ctxErr r m (.inr rfl) rest
  exact ⟨legal, fun c => next r _ (still c)⟩

theorem tryTier_rests (idle : Idles P Rest)
    (visit : ∀ c attempts duration m, Rest m →
      Follows P (fun _ => Rest) (e.tryCandidate c req attempts duration) m)
    {fuel : Nat} {p : Progress} (rest : Rest m) :
    Follows P (fun _ => Rest) (e.tryTier tier req fuel tried p) m := by
  induction fuel generalizing tried p m with
  | zero => exact Follows.pure rest
  | succ fuel ih =>
      rw [tryTier]
      apply Follows.bind (pickFromTier_rests idle rest)
      intro picked m rest
      cases picked with
      | none => exact Follows.pure rest
      | some c =>
          apply Follows.bind (visit c p.attempts p.duration m rest)
          intro t m rest
          split
          · exact Follows.pure rest
          · exact ih rest
          · split
            · exact Follows.pure rest
            all_goals
              apply ctxErr_rests idle rest
              intro r m rest
              cases r with
              | none => exact ih rest
              | some ce => exact Follows.pure rest

theorem tryTierStream_rests (idle : Idles P Rest)
    (visit : ∀ c attempts duration m, Rest m →
      Follows P (fun _ => Rest) (e.tryCandidateStream c req attempts duration) m)
    {fuel : Nat} {p : Progress} (rest : Rest m) :
    Follows P (fun _ => Rest) (e.tryTierStream tier req fuel tried p) m := by
  induction fuel generalizing tried p m with
  | zero => exact Follows.pure rest
  | succ fuel ih =>
      rw [tryTierStream]
      apply Follows.bind (pickFromTier_rests idle rest)
      intro picked m rest
      cases picked with
      | none => exact Follows.pure rest
      | some c =>
          apply Follows.bind (visit c p.attempts p.duration m rest)
          intro t m rest
          split
          · exact Follows.pure rest
          · exact ih rest
          · split
            · exact Follows.pure rest
            · split
              · exact Follows.pure rest
              all_goals
                apply ctxErr_rests idle rest
                intro r m rest
                cases r with
                | none => exact ih rest
                | some ce => exact Follows.pure rest

theorem execute_rests (idle : Idles P Rest)
    (visit : ∀ c attempts duration m, Rest m →
      Follows P (fun _ => Rest) (e.tryCandidate c req attempts duration) m)
    (tiers : List Tier) (rest : Rest m) : Follows P (fun _ => Rest) (e.execute tiers req) m := by
  unfold execute
  generalize ({} : Progress) = p
  induction tiers generalizing p m with
  | nil => exact Follows.pure rest
  | cons tier tiers ih =>
      rw [executeFrom]
      apply Follows.bind (tryTier_rests idle visit rest)
      intro ended m rest
      cases ended with
      | advance p' => exact ih rest p'
      | returned r => exact Follows.pure rest
      | outOfFuel => exact Follows.pure rest

theorem executeStream_rests (idle : Idles P Rest)
    (visit : ∀ c attempts duration m, Rest m →
      Follows P (fun _ => Rest) (e.tryCandidateStream c req attempts duration) m)
    (tiers : List Tier) (rest : Rest m) :
    Follows P (fun _ => Rest) (e.executeStream tiers req) m := by
  unfold executeStream
  generalize ({} : Progress) = p
  induction tiers generalizing p m with
  | nil => exact Follows.pure rest
  | cons tier tiers ih =>
      rw [executeStreamFrom]
      apply Follows.bind (tryTierStream_rests idle visit rest)
      intro ended m rest
      cases ended with
      | advance p' => exact ih rest p'
      | returned r => exact Follows.pure rest
      | outOfFuel => exact Follows.pure rest

end Engine
end Gateway.Retry
