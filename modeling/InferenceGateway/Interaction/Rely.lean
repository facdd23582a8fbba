import InferenceGateway.Interaction.Program

/-! Programs over a shared state that others change in between. Before each request, and
at the end, the state may move as the `rely` relation allows; the rules of pre- and
postconditions ask for assertions that such moves keep. -/
namespace Interaction
open Program

/-- `ok` restricts the inputs with which requests are served. -/
structure Surroundings (E : Type) (R : E → Type) (S I : Type) where
  serve : S → I → (e : E) → R e × S
  rely : S → S → Prop
  ok : I → Prop
  refl : ∀ s, rely s s

namespace Surroundings
variable {E : Type} {R : E → Type} {S I α β : Type} {env : Surroundings E R S I}

/-- The program, started in the first state, ends in the second with this value. -/
inductive Executes (env : Surroundings E R S I) : S → Program E R α → S → α → Prop
  | pure {s s' : S} (a : α) : env.rely s s' → Executes env s (.pure a) s' a
  | request {s middle s' : S} {e : E} {next : R e → Program E R α} {a : α} (input : I) :
      env.rely s middle → env.ok input →
      Executes env (env.serve middle input e).2 (next (env.serve middle input e).1) s' a →
      Executes env s (.request e next) s' a

def Stable (env : Surroundings E R S I) (P : S → Prop) : Prop := ∀ s s', P s → env.rely s s' → P s'

/-- Wherever the program ends after starting in `P`, its value and state are in `Q`. -/
def Triple (env : Surroundings E R S I) (P : S → Prop) (p : Program E R α) (Q : α → S → Prop) :
    Prop := ∀ s s' a, P s → env.Executes s p s' a → Q a s'

theorem exists_executes {input : I} (ok : env.ok input) (p : Program E R α) (s : S) :
    ∃ s' a, env.Executes s p s' a := by
  induction p generalizing s with
  | pure a => exact ⟨s, a, .pure a (env.refl s)⟩
  | request e next ih =>
      obtain ⟨s', a, rest⟩ := ih (env.serve s input e).1 (env.serve s input e).2
      exact ⟨s', a, .request input (env.refl s) ok rest⟩

theorem executes_bind {p : Program E R α} {f : α → Program E R β} {s s' : S} {b : β}
    (h : env.Executes s (p >>= f) s' b) :
    ∃ middle a, env.Executes s p middle a ∧ env.Executes middle (f a) s' b := by
  induction p generalizing s with
  | pure a => exact ⟨s, a, .pure a (env.refl s), h⟩
  | request e next ih =>
      cases h with
      | request input moved ok rest =>
          obtain ⟨middle, a, first, last⟩ := ih _ rest
          exact ⟨middle, a, .request input moved ok first, last⟩

variable {P : S → Prop} {Q : α → S → Prop}

theorem Triple.pure {a : α} (stable : env.Stable (Q a)) (h : ∀ s, P s → Q a s) :
    env.Triple P (Pure.pure a) Q := by
  intro s s' a' start run
  cases run with
  | pure _ moved => exact stable s s' (h s start) moved

theorem Triple.bind {M : α → S → Prop} {Q : β → S → Prop} {p : Program E R α}
    {f : α → Program E R β} (first : env.Triple P p M) (second : ∀ a, env.Triple (M a) (f a) Q) :
    env.Triple P (p >>= f) Q := by
  intro s s' b start run
  obtain ⟨middle, a, left, right⟩ := executes_bind run
  exact second a middle s' b (first s middle a start left) right

theorem Triple.perform_bind {e : E} {f : R e → Program E R α} (stable : env.Stable P)
    {M : R e → S → Prop} (served : ∀ s input, P s → env.ok input →
      M (env.serve s input e).1 (env.serve s input e).2)
    (rest : ∀ r, env.Triple (M r) (f r) Q) : env.Triple P (perform e >>= f) Q := by
  intro s s' a start run
  cases run with
  | request input moved ok later =>
      exact rest _ _ _ _ (served _ input (stable _ _ start moved) ok) later

/-- A fact that does not depend on the state may be used outside the triple. -/
theorem Triple.of_fact {fact : Prop} {p : Program E R α} (h : fact → env.Triple P p Q) :
    env.Triple (fun s => fact ∧ P s) p Q := by
  rintro s s' a ⟨holds, start⟩ run
  exact h holds s s' a start run

/-- An assertion that every request of the program keeps. -/
theorem Triple.of_within {allowed : E → Prop} {p : Program E R α} (within_ : p.Within allowed)
    (stable : env.Stable P)
    (kept : ∀ e s input, allowed e → P s → env.ok input → P (env.serve s input e).2) :
    env.Triple P p (fun _ => P) := by
  intro s s' a start run
  induction run with
  | pure a moved => exact stable _ _ start moved
  | request input moved ok _ ih =>
      exact ih (within_.2 _) (kept _ _ input within_.1 (stable _ _ start moved) ok)

end Surroundings
end Interaction
