import InferenceGateway.Retry.Backoff

/-! One round of the background prober over the breakers created so far. -/
namespace Gateway.Breaker
open Gateway.Providers Gateway.Retry Interaction

/-- The loop body of probeOnce for the breaker of one pair. -/
def probe (providers : String → Option Provider) (name model : String) : EngineM Unit := do
  let state : State ← perform (.state name model)
  if state ≠ .opened then pure ()
  else do
    let ready : Bool ← perform (.ready name model)
    if !ready then pure ()
    else
      match providers name with
      | none => pure ()
      | some provider =>
          if !provider.healthChecker then pure ()
          else do
            let allowed : Bool ← perform (.allow name model)
            if !allowed then pure ()
            else do
              let err : Option CallError ← perform (.healthCheck name)
              match err with
              | some _ => perform (.recordFailure name model)
              | none => perform (.recordSuccess name model)

def probeAll (providers : String → Option Provider) : List (String × String) → EngineM Unit
  | [] => pure ()
  | (name, model) :: rest => do
      probe providers name model
      probeAll providers rest

def probeOnce (providers : String → Option Provider) : EngineM Unit := do
  let breakers : List (String × String) ← perform .snapshot
  probeAll providers breakers

/-- What the prober asks about one breaker. -/
theorem probe_asks {providers : String → Option Provider} {name model : String} :
    (probe providers name model).Within (fun op => op = .state name model ∨
      op = .ready name model ∨ op = .allow name model ∨ op = .healthCheck name ∨
      op = .recordFailure name model ∨ op = .recordSuccess name model) := by
  refine ⟨by simp, fun state => ?_⟩
  change Program.Within _ (ite _ _ _)
  split
  · exact Program.Within.pure _
  · refine ⟨by simp, fun ready => ?_⟩
    change Program.Within _ (ite _ _ _)
    split
    · exact Program.Within.pure _
    · cases providers name with
      | none => exact Program.Within.pure _
      | some provider =>
          simp only
          split
          · exact Program.Within.pure _
          · refine ⟨by simp, fun allowed => ?_⟩
            change Program.Within _ (ite _ _ _)
            split
            · exact Program.Within.pure _
            · refine ⟨by simp, fun err => ?_⟩
              cases err with
              | some failure => exact ⟨by simp, fun _ => trivial⟩
              | none => exact ⟨by simp, fun _ => trivial⟩

end Gateway.Breaker
