import InferenceGateway.Interaction.Program

/-! Handlers with a local state. A handler answers the requests of one program by running
a program over other requests; a run of the handled program is a run of the original one,
with the handler's own trace in the place of each request. -/
namespace Interaction
variable {E F : Type} {R : E → Type} {Q : F → Type} {σ α : Type}

/-- How a handler answers a request in a state: the reply and the next state. -/
abbrev Handler (E : Type) (R : E → Type) (F : Type) (Q : F → Type) (σ : Type) :=
  σ → (e : E) → Program F Q (R e × σ)

namespace Program

def handle (h : Handler E R F Q σ) : Program E R α → σ → Program F Q (α × σ)
  | .pure a, s => .pure (a, s)
  | .request e next, s => (h s e).bind fun answer => handle h (next answer.1) answer.2

theorem Within.handle {allowed : F → Prop} {h : Handler E R F Q σ}
    (each : ∀ s e, Within allowed (h s e)) (p : Program E R α) (s : σ) :
    Within allowed (handle h p s) := by
  induction p generalizing s with
  | pure a => trivial
  | request e next ih => exact (each s e).bind fun answer => ih answer.1 answer.2

/-- A trace of requests, the trace of handling them one by one, and the final state. -/
inductive Handled (h : Handler E R F Q σ) :
    σ → List (Event E R) → List (Event F Q) → σ → Prop
  | nil (s : σ) : Handled h s [] [] s
  | cons {s s₁ s₂ : σ} {e : E} {r : R e} {rest : List (Event E R)} {own later : List (Event F Q)} :
      Runs (h s e) own (r, s₁) → Handled h s₁ rest later s₂ →
      Handled h s (⟨e, r⟩ :: rest) (own ++ later) s₂

theorem runs_handle {h : Handler E R F Q σ} {p : Program E R α} {s s' : σ} {a : α}
    {tr : List (Event F Q)} :
    Runs (handle h p s) tr (a, s') ↔ ∃ inner, Runs p inner a ∧ Handled h s inner tr s' := by
  constructor
  · intro run
    induction p generalizing s tr with
    | pure b =>
        cases run
        exact ⟨[], .pure _, .nil _⟩
    | request e next ih =>
        obtain ⟨own, answer, later, rfl, first, last⟩ := runs_bind.mp run
        obtain ⟨inner, rest, handled⟩ := ih answer.1 last
        exact ⟨⟨e, answer.1⟩ :: inner, .request answer.1 rest, .cons first handled⟩
  · rintro ⟨inner, run, handled⟩
    induction run generalizing s tr with
    | pure b =>
        cases handled
        exact .pure _
    | request r _ ih =>
        cases handled with
        | cons first later => exact runs_bind.mpr ⟨_, _, _, rfl, first, ih later⟩

/-- An invariant of the handler's state, the requests handled so far and its own trace. -/
theorem Handled.invariant {h : Handler E R F Q σ} {s s' : σ} {inner : List (Event E R)}
    {tr : List (Event F Q)} (handled : Handled h s inner tr s')
    {Inv : List (Event E R) → List (Event F Q) → σ → Prop} {done : List (Event E R)}
    {past : List (Event F Q)} (start : Inv done past s)
    (preserve : ∀ done past s ev own s', Inv done past s → Runs (h s ev.1) own (ev.2, s') →
      Inv (done ++ [ev]) (past ++ own) s') :
    Inv (done ++ inner) (past ++ tr) s' := by
  induction handled generalizing done past with
  | nil s => simpa using start
  | @cons s s₁ s₂ e r rest own later first _ ih =>
      have next := ih (preserve done past s ⟨e, r⟩ own s₁ start first)
      simpa using next

end Program
end Interaction
