import InferenceGateway.Interaction.Program

/-! Two programs side by side. They make kindred requests as long as the replies count as
alike, and end with related values; the rules follow the shape of the programs, and traces
that are alike then end alike. -/
namespace Interaction
variable {E F : Type} {R : E → Type} {Q : F → Type} {α β γ δ : Type}

/-- Which requests are made side by side, and which of their replies count as the same. -/
structure Likeness (E : Type) (R : E → Type) (F : Type) (Q : F → Type) where
  kin : E → F → Prop
  alike : Event E R → Event F Q → Prop

/-- Replies to one request are equal where alike events are the same event. -/
theorem Likeness.reply_eq (L : Likeness E R E R) (same : E → Prop)
    (inversion : ∀ ev ev', L.alike ev ev' → ev = ev' ∨ ¬ same ev.1) {e : E} (shared : same e) {r q : R e}
    (alike : L.alike ⟨e, r⟩ ⟨e, q⟩) : r = q := by
  rcases inversion _ _ alike with equal | other
  · cases equal
    rfl
  · exact absurd shared other

namespace Program
variable {L : Likeness E R F Q}

def Lockstep (L : Likeness E R F Q) (rel : α → β → Prop) : Program E R α → Program F Q β → Prop
  | .pure a, .pure b => rel a b
  | .request e next, .request f next' =>
      L.kin e f ∧ ∀ r q, L.alike ⟨e, r⟩ ⟨f, q⟩ → Lockstep L rel (next r) (next' q)
  | .pure _, .request _ _ | .request _ _, .pure _ => False

theorem bind_of_pure (a : α) (next : α → Program E R β) : (Pure.pure a >>= next) = next a := rfl

theorem Lockstep.perform_bind {rel : α → β → Prop} {e : E} {f : F} {next : R e → Program E R α}
    {next' : Q f → Program F Q β} (kin : L.kin e f)
    (rest : ∀ r q, L.alike ⟨e, r⟩ ⟨f, q⟩ → Lockstep L rel (next r) (next' q)) :
    Lockstep L rel (perform e >>= next) (perform f >>= next') := ⟨kin, rest⟩

theorem Lockstep.bind {mid : α → β → Prop} {rel : γ → δ → Prop} {p : Program E R α}
    {p' : Program F Q β} {next : α → Program E R γ} {next' : β → Program F Q δ}
    (first : Lockstep L mid p p')
    (rest : ∀ a b, mid a b → Lockstep L rel (next a) (next' b)) :
    Lockstep L rel (p >>= next) (p' >>= next') := by
  induction p generalizing p' with
  | pure a =>
      cases p' with
      | pure b => exact rest a b first
      | request f later => exact first.elim
  | request e later ih =>
      cases p' with
      | pure b => exact first.elim
      | request f later' => exact ⟨first.1, fun r q same => ih r (first.2 r q same)⟩

theorem Lockstep.mono {rel rel' : α → β → Prop} {p : Program E R α} {p' : Program F Q β}
    (h : Lockstep L rel p p') (weaken : ∀ a b, rel a b → rel' a b) : Lockstep L rel' p p' := by
  induction p generalizing p' with
  | pure a =>
      cases p' with
      | pure b => exact weaken a b h
      | request f later => exact h.elim
  | request e later ih =>
      cases p' with
      | pure b => exact h.elim
      | request f later' => exact ⟨h.1, fun r q same => ih r (h.2 r q same)⟩

/-- A program keeps step with itself where alike replies are equal. -/
theorem Lockstep.refl {L : Likeness E R E R} {allowed : E → Prop} {p : Program E R α}
    (within_ : p.Within allowed)
    (same : ∀ e, allowed e → L.kin e e ∧ ∀ r q, L.alike ⟨e, r⟩ ⟨e, q⟩ → r = q) :
    Lockstep L Eq p p := by
  induction p with
  | pure a => exact rfl
  | request e next ih =>
      refine ⟨(same e within_.1).1, fun r q alike => ?_⟩
      cases (same e within_.1).2 r q alike
      exact ih r (within_.2 r)

/-- Runs whose traces are alike end related. It is enough to compare a part of the second
trace that no kindred request is missing from: the part is then the whole. -/
theorem Lockstep.runs {rel : α → β → Prop} {p : Program E R α} {p' : Program F Q β}
    (h : Lockstep L rel p p') (keep : Event F Q → Bool)
    (kept : ∀ e f q, L.kin e f → keep ⟨f, q⟩ = true) {tr : List (Event E R)}
    {tr' : List (Event F Q)} {a : α} {b : β} (run : Runs p tr a) (run' : Runs p' tr' b)
    (alike : List.Forall₂ L.alike tr (tr'.filter keep)) : rel a b ∧ tr'.filter keep = tr' := by
  induction run generalizing p' tr' with
  | pure a =>
      cases run' with
      | pure b => exact ⟨h, rfl⟩
      | request q _ => exact h.elim
  | request r _ ih =>
      cases run' with
      | pure b => exact h.elim
      | request q later =>
          have first := kept _ _ q h.1
          rw [List.filter_cons_of_pos first] at alike ⊢
          cases alike with
          | cons same rest =>
              obtain ⟨related, whole⟩ := ih (h.2 r q same) later rest
              exact ⟨related, by rw [whole]⟩

/-- Two environments that give alike replies after alike histories keep the programs in step. -/
theorem Lockstep.exec {rel : α → β → Prop} {p : Program E R α} {p' : Program F Q β}
    {answer : List (Event E R) → (e : E) → R e} {answer' : List (Event F Q) → (f : F) → Q f}
    (agree : ∀ past past', List.Forall₂ L.alike past past' →
      ∀ e f, L.kin e f → L.alike ⟨e, answer past e⟩ ⟨f, answer' past' f⟩)
    (h : Lockstep L rel p p') {past : List (Event E R)} {past' : List (Event F Q)}
    (before : List.Forall₂ L.alike past past') :
    List.Forall₂ L.alike (exec answer p past).1 (exec answer' p' past').1 ∧
      rel (exec answer p past).2 (exec answer' p' past').2 := by
  induction p generalizing p' past past' with
  | pure a =>
      cases p' with
      | pure b => exact ⟨.nil, h⟩
      | request f later => exact h.elim
  | request e later ih =>
      cases p' with
      | pure b => exact h.elim
      | request f later' =>
          have same := agree past past' before e f h.1
          have next := List.rel_append before (.cons same .nil)
          obtain ⟨rest, related⟩ := ih _ (h.2 _ _ same) next
          exact ⟨.cons same rest, related⟩

end Program
end Interaction
