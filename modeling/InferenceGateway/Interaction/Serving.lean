import InferenceGateway.Interaction.Protocol

/-! Traces against a state. Each event is served in turn, and may move the state; a relation
says which replies a state allows. Programs may also be carried over to a wider set of
requests. -/
namespace Interaction
variable {E F : Type} {R : E → Type} {Q : F → Type} {S α β : Type}

/-- The trace is served event by event, from the first state to the second. -/
inductive Serves (serve : S → Event E R → S → Prop) : S → List (Event E R) → S → Prop
  | nil (s : S) : Serves serve s [] s
  | cons {s middle s' : S} {ev : Event E R} {tr : List (Event E R)} :
      serve s ev middle → Serves serve middle tr s' → Serves serve s (ev :: tr) s'

variable {serve : S → Event E R → S → Prop}

theorem Serves.append {s s' : S} {tr₁ tr₂ : List (Event E R)} (h : Serves serve s (tr₁ ++ tr₂) s') :
    ∃ middle, Serves serve s tr₁ middle ∧ Serves serve middle tr₂ s' := by
  induction tr₁ generalizing s with
  | nil => exact ⟨s, .nil s, h⟩
  | cons ev tr ih =>
      cases h with
      | cons served rest =>
          obtain ⟨middle, first, last⟩ := ih rest
          exact ⟨middle, .cons served first, last⟩

theorem Serves.invariant {s s' : S} {tr : List (Event E R)} (h : Serves serve s tr s')
    (Inv : S → Prop) (start : Inv s) (kept : ∀ s ev s', Inv s → serve s ev s' → Inv s') :
    Inv s' := by
  induction h with
  | nil s => exact start
  | cons served _ ih => exact ih (kept _ _ _ start served)

/-- Each event of the trace is served in a state with the invariant, and so is what follows. -/
theorem Serves.of_mem {s s' : S} {tr : List (Event E R)} (h : Serves serve s tr s')
    (Inv : S → Prop) (start : Inv s) (kept : ∀ s ev s', Inv s → serve s ev s' → Inv s')
    {ev : Event E R} (member : ev ∈ tr) :
    ∃ before after rest, Inv before ∧ serve before ev after ∧ Serves serve after rest s' := by
  induction h with
  | nil s => cases member
  | cons served later ih =>
      rcases List.mem_cons.mp member with rfl | further
      · exact ⟨_, _, _, start, served, later⟩
      · exact ih (kept _ _ _ start served) further

namespace Program
variable (into : E → F) (reply : ∀ e, Q (into e) ≃ R e)

/-- The same program over a wider set of requests. -/
def lift : Program E R α → Program F Q α
  | .pure a => .pure a
  | .request e next => .request (into e) fun r => (next (reply e r)).lift

def liftEvent (ev : Event E R) : Event F Q := ⟨into ev.1, (reply ev.1).symm ev.2⟩

variable {into reply}

theorem runs_lift {p : Program E R α} {tr : List (Event F Q)} {a : α}
    (h : Runs (p.lift into reply) tr a) :
    ∃ inner, tr = inner.map (liftEvent into reply) ∧ Runs p inner a := by
  induction p generalizing tr with
  | pure b =>
      cases h
      exact ⟨[], rfl, .pure _⟩
  | request e next ih =>
      obtain ⟨r, rest, rfl, later⟩ := runs_request.mp h
      obtain ⟨inner, rfl, run⟩ := ih _ later
      refine ⟨⟨e, reply e r⟩ :: inner, ?_, .request _ run⟩
      simp [liftEvent]

theorem Within.lift {allowed : F → Prop} {p : Program E R α}
    (h : p.Within fun e => allowed (into e)) : (p.lift into reply).Within allowed := by
  induction p with
  | pure a => trivial
  | request e next ih => exact ⟨h.1, fun r => ih _ (h.2 _)⟩

/-- A program follows a protocol over the wider requests that reads them as it does. -/
theorem Follows.lift {C M : Type} {P : Protocol E R C M} {P' : Protocol F Q C M}
    {final : α → M → Prop} {p : Program E R α} {m : M} (h : p.Follows P final m)
    (advance : ∀ c m e r, P'.advance c m ⟨into e, r⟩ = P.advance c m ⟨e, reply e r⟩)
    (legal : ∀ m e r, P.legal m ⟨e, reply e r⟩ → P'.legal m ⟨into e, r⟩) :
    (p.lift into reply).Follows P' final m := by
  induction p generalizing m with
  | pure a => exact h
  | request e next ih =>
      intro r
      obtain ⟨here, later⟩ := h (reply e r)
      refine ⟨legal m e r here, ?_⟩
      intro c
      rw [advance]
      exact ih _ (later c)

variable (into reply) in
/-- A protocol over the wider requests, as the narrower ones see it. -/
def narrow {C M : Type} (P : Protocol F Q C M) : Protocol E R C M where
  advance c m ev := P.advance c m (liftEvent into reply ev)
  legal m ev := P.legal m (liftEvent into reply ev)

theorem Follows.of_narrow {C M : Type} {P : Protocol F Q C M} {final : α → M → Prop}
    {p : Program E R α} {m : M} (h : p.Follows (narrow into reply P) final m) :
    (p.lift into reply).Follows P final m := by
  refine h.lift ?_ ?_
  · intro c m e r
    simp [narrow, liftEvent]
  · intro m e r legal
    simpa [narrow, liftEvent] using legal

theorem Given.lift {assume : Event E R → Prop} {wider : Event F Q → Prop} {post : α → Prop}
    {p : Program E R α} (h : p.Given assume post)
    (met : ∀ e r, wider ⟨into e, r⟩ → assume ⟨e, reply e r⟩) :
    (p.lift into reply).Given wider post := by
  induction p with
  | pure a => exact h
  | request e next ih => exact fun r holds => ih _ (h _ (met e r holds))

end Program
end Interaction
