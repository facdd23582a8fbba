import InferenceGateway.Interaction.Pool

/-! Two systems that run the same programs over different shared states. If one serves every
request as the other does on a view of its state, each of its runs is a run of the other. -/
namespace Interaction
variable {E : Type} {R : E → Type} {M α S T J I : Type}

/-- The same processes over the view of their shared state. -/
def Pool.view (look : S → T) (pool : Pool E R M α S) : Pool E R M α T :=
  ⟨look pool.shared, pool.processes⟩

/-- `fine` serves what its processes may ask as `coarse` does on the view. The invariant says
what they may ask and in which states. -/
structure System.Refines (fine : System E R M α S J I) (coarse : System E R M α T J I)
    (look : S → T) (Inv : Pool E R M α S → Prop) : Prop where
  program : coarse.program = fine.program
  idle : coarse.idle = fine.idle
  advance : ∀ s m ev, coarse.protocol.advance (look s) m ev = fine.protocol.advance s m ev
  kept : ∀ pool move next, Inv pool → fine.step pool move = some next → Inv next
  serve : ∀ (pool : Pool E R M α S) (i : Nat) (input : I) (e : E) (next : R e → Program E R α) (m : M),
    Inv pool → pool.processes[i]? = some ⟨.request e next, m⟩ →
    coarse.serve (look pool.shared) input e =
      ((fine.serve pool.shared input e).1, look (fine.serve pool.shared input e).2)

namespace System
variable {fine : System E R M α S J I} {coarse : System E R M α T J I} {look : S → T}
  {Inv : Pool E R M α S → Prop}

theorem Refines.step (h : fine.Refines coarse look Inv) {pool next : Pool E R M α S}
    {move : Move J I} (inv : Inv pool) (moved : fine.step pool move = some next) :
    coarse.step (pool.view look) move = some (next.view look) := by
  cases move with
  | start job =>
      cases moved
      simp only [System.step, Pool.view, h.program, h.idle]
  | act i input =>
      obtain ⟨e, continue_, m, found, rfl⟩ := act_cases moved
      have served := h.serve pool i input e continue_ m inv found
      simp only [System.step, Pool.view, found, served, h.advance]

theorem Refines.reaches (h : fine.Refines coarse look Inv)
    {cond : Pool E R M α S → Move J I → Prop} {first pool : Pool E R M α S} (inv : Inv first)
    (reached : fine.Reaches cond first pool) :
    Inv pool ∧ coarse.Reaches (fun _ _ => True) (first.view look) (pool.view look) := by
  induction reached with
  | refl => exact ⟨inv, .refl⟩
  | step _ _ moved ih =>
      obtain ⟨here, before⟩ := ih
      exact ⟨h.kept _ _ _ here moved, .step before trivial (h.step here moved)⟩

end System
end Interaction
