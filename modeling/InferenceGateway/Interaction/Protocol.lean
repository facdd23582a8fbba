import InferenceGateway.Interaction.Program

/-! Protocols for interaction programs. A party carries a protocol state that its own
events move; a protocol says which events are legal in which state. Following a
protocol is a property of the program alone, for every reply it may be given. -/
namespace Interaction

/-- `C` is what the surroundings may contribute when a state is advanced. -/
structure Protocol (E : Type) (R : E → Type) (C M : Type) where
  advance : C → M → Event E R → M
  legal : M → Event E R → Prop

namespace Program
variable {E : Type} {R : E → Type} {C M α β : Type} {P : Protocol E R C M}

/-- Every event is legal where it happens, and `final` holds wherever the program ends. -/
def Follows (P : Protocol E R C M) (final : α → M → Prop) : Program E R α → M → Prop
  | .pure a, m => final a m
  | .request e next, m =>
      ∀ r, P.legal m ⟨e, r⟩ ∧ ∀ c, Follows P final (next r) (P.advance c m ⟨e, r⟩)

theorem Follows.pure {final : α → M → Prop} {a : α} {m : M} (h : final a m) :
    Follows P final (Pure.pure a : Program E R α) m := h

theorem Follows.perform_bind {final : β → M → Prop} {e : E} {f : R e → Program E R β} {m : M}
    (h : ∀ r, P.legal m ⟨e, r⟩ ∧ ∀ c, Follows P final (f r) (P.advance c m ⟨e, r⟩)) :
    Follows P final (perform e >>= f) m := h

theorem Follows.bind {mid : α → M → Prop} {final : β → M → Prop} {p : Program E R α}
    {f : α → Program E R β} {m : M} (first : Follows P mid p m)
    (second : ∀ a m, mid a m → Follows P final (f a) m) : Follows P final (p >>= f) m := by
  induction p generalizing m with
  | pure a => exact second a m first
  | request e next ih =>
      intro r
      refine ⟨(first r).1, ?_⟩
      intro c
      exact ih r ((first r).2 c)

theorem Follows.mono {final final' : α → M → Prop} {p : Program E R α} {m : M}
    (h : Follows P final p m) (weaken : ∀ a m, final a m → final' a m) : Follows P final' p m := by
  induction p generalizing m with
  | pure a => exact weaken a m h
  | request e next ih =>
      intro r
      refine ⟨(h r).1, ?_⟩
      intro c
      exact ih r ((h r).2 c)

/-- A program all of whose runs consist of events that are legal and keep an invariant. -/
theorem Follows.of_runs [∀ e, Nonempty (R e)] {I : M → Prop} {p : Program E R α} {m : M}
    (kept : ∀ tr a, Runs p tr a → ∀ ev ∈ tr, ∀ m, I m → P.legal m ev ∧ ∀ c, I (P.advance c m ev))
    (start : I m) : Follows P (fun a m' => I m' ∧ ∃ tr, Runs p tr a) p m := by
  induction p generalizing m with
  | pure a => exact ⟨start, [], .pure a⟩
  | request e next ih =>
      intro r
      obtain ⟨tr, a, rest⟩ := exists_run (next r)
      obtain ⟨legal, still⟩ := kept _ a (.request r rest) ⟨e, r⟩ List.mem_cons_self m start
      refine ⟨legal, ?_⟩
      intro c
      have later := ih r (fun tr a run ev member =>
        kept _ a (.request r run) ev (List.mem_cons_of_mem _ member)) (still c)
      apply later.mono
      rintro a m' ⟨unmoved, tr, run⟩
      exact ⟨unmoved, _, .request r run⟩

/-- A program that makes only requests which are legal in, and keep, an invariant. -/
theorem Follows.of_within {allowed : E → Prop} {I : M → Prop} {p : Program E R α} {m : M}
    (h : p.Within allowed)
    (kept : ∀ e r m, allowed e → I m → P.legal m ⟨e, r⟩ ∧ ∀ c, I (P.advance c m ⟨e, r⟩))
    (start : I m) : Follows P (fun _ m' => I m') p m := by
  induction p generalizing m with
  | pure a => exact start
  | request e next ih =>
      intro r
      obtain ⟨legal, still⟩ := kept e r m h.1 start
      exact ⟨legal, fun c => ih r (h.2 r) (still c)⟩

end Program
end Interaction
