import Mathlib

/-! Interaction programs. A program is a finite-depth tree of typed requests to
its surroundings; a run records each request with the reply that was given.
Nothing is assumed about replies, so a statement about every run is a statement
about every environment. -/
namespace Interaction

inductive Program (E : Type) (R : E → Type) (α : Type) where
  | pure : α → Program E R α
  | request (e : E) (next : R e → Program E R α) : Program E R α

/-- One request together with the reply it received. -/
abbrev Event (E : Type) (R : E → Type) := (e : E) × R e

namespace Program
variable {E : Type} {R : E → Type} {α β : Type}

def bind : Program E R α → (α → Program E R β) → Program E R β
  | .pure a, f => f a
  | .request e next, f => .request e (fun r => (next r).bind f)

instance : Monad (Program E R) where
  pure := .pure
  bind := Program.bind

def perform (e : E) : Program E R (R e) := .request e .pure

def isPure : Program E R α → Bool
  | .pure _ => true
  | .request _ _ => false

/-- Complete runs: the trace lists every request in order, ending with the value. -/
inductive Runs : Program E R α → List (Event E R) → α → Prop
  | pure (a : α) : Runs (.pure a) [] a
  | request {e : E} {next : R e → Program E R α} {tr : List (Event E R)} {a : α} (r : R e) :
      Runs (next r) tr a → Runs (.request e next) (⟨e, r⟩ :: tr) a

@[simp] theorem runs_pure {a b : α} {tr : List (Event E R)} :
    Runs (Pure.pure a : Program E R α) tr b ↔ tr = [] ∧ b = a := by
  constructor
  · intro h; cases h; exact ⟨rfl, rfl⟩
  · rintro ⟨rfl, rfl⟩; exact .pure b

theorem runs_request {e : E} {next : R e → Program E R α} {tr : List (Event E R)} {a : α} :
    Runs (.request e next) tr a ↔ ∃ r tr', tr = ⟨e, r⟩ :: tr' ∧ Runs (next r) tr' a := by
  constructor
  · intro h; cases h with
    | request r rest => exact ⟨r, _, rfl, rest⟩
  · rintro ⟨r, tr', rfl, rest⟩; exact .request r rest

@[simp] theorem runs_perform {e : E} {tr : List (Event E R)} {a : R e} :
    Runs (perform e) tr a ↔ tr = [⟨e, a⟩] := by
  constructor
  · intro h
    obtain ⟨r, tr', rfl, rest⟩ := runs_request.mp h
    obtain ⟨rfl, rfl⟩ := runs_pure.mp rest
    rfl
  · rintro rfl; exact .request a (.pure a)

@[simp] theorem runs_bind {p : Program E R α} {f : α → Program E R β}
    {tr : List (Event E R)} {b : β} :
    Runs (p >>= f) tr b ↔ ∃ tr₁ a tr₂, tr = tr₁ ++ tr₂ ∧ Runs p tr₁ a ∧ Runs (f a) tr₂ b := by
  constructor
  · intro h
    induction p generalizing tr with
    | pure a => exact ⟨[], a, tr, rfl, .pure a, h⟩
    | request e next ih =>
        obtain ⟨r, tr', rfl, rest⟩ := runs_request.mp h
        obtain ⟨tr₁, a, tr₂, rfl, first, last⟩ := ih r rest
        exact ⟨⟨e, r⟩ :: tr₁, a, tr₂, rfl, .request r first, last⟩
  · rintro ⟨tr₁, a, tr₂, rfl, first, last⟩
    induction first with
    | pure a => exact last
    | request r _ ih => exact .request r (ih last)

/-- Replies decide the run: after a run of the first program, what follows is a run of the
second on its value. -/
theorem Runs.of_bind {p : Program E R α} {f : α → Program E R β} {tr₁ tr₂ : List (Event E R)}
    {a : α} {b : β} (first : Runs p tr₁ a) (both : Runs (p >>= f) (tr₁ ++ tr₂) b) :
    Runs (f a) tr₂ b := by
  induction first with
  | pure a => exact both
  | request r _ ih =>
      obtain ⟨r', tr', same, rest⟩ := runs_request.mp both
      cases same
      exact ih rest

theorem runs_perform_bind {e : E} {f : R e → Program E R β} {tr : List (Event E R)} {b : β} :
    Runs (perform e >>= f) tr b ↔ ∃ r tr', tr = ⟨e, r⟩ :: tr' ∧ Runs (f r) tr' b :=
  runs_request

/-- Every request the program can make is allowed. -/
def Within (allowed : E → Prop) : Program E R α → Prop
  | .pure _ => True
  | .request e next => allowed e ∧ ∀ r, Within allowed (next r)

theorem Within.pure {allowed : E → Prop} (a : α) :
    Within allowed (Pure.pure a : Program E R α) := trivial

theorem Within.perform {allowed : E → Prop} {e : E} (h : allowed e) :
    Within allowed (perform e : Program E R (R e)) := ⟨h, fun _ => trivial⟩

theorem Within.bind {allowed : E → Prop} {p : Program E R α} {f : α → Program E R β}
    (first : Within allowed p) (second : ∀ a, Within allowed (f a)) : Within allowed (p >>= f) := by
  induction p with
  | pure a => exact second a
  | request e next ih => exact ⟨first.1, fun r => ih r (first.2 r)⟩

theorem Within.perform_bind {allowed : E → Prop} {e : E} {f : R e → Program E R β} (first : allowed e)
    (rest : ∀ r, Within allowed (f r)) : Within allowed (Program.perform e >>= f) := ⟨first, rest⟩

theorem Within.mono {allowed wider : E → Prop} {p : Program E R α} (h : Within allowed p)
    (weaken : ∀ e, allowed e → wider e) : Within wider p := by
  induction p with
  | pure a => trivial
  | request e next ih => exact ⟨weaken e h.1, fun r => ih r (h.2 r)⟩

theorem Within.runs {allowed : E → Prop} {p : Program E R α} (h : Within allowed p)
    {tr : List (Event E R)} {a : α} (run : Runs p tr a) : ∀ ev ∈ tr, allowed ev.1 := by
  induction run with
  | pure a => nofun
  | request r _ ih =>
      intro ev member
      rcases List.mem_cons.mp member with rfl | later
      · exact h.1
      · exact ih (h.2 r) ev later

/-- What the program returns satisfies `post`, as long as every reply meets `assume`. -/
def Given (assume : Event E R → Prop) (post : α → Prop) : Program E R α → Prop
  | .pure a => post a
  | .request e next => ∀ r, assume ⟨e, r⟩ → Given assume post (next r)

theorem Given.perform_bind {assume : Event E R → Prop} {post : β → Prop} {e : E}
    {f : R e → Program E R β} (h : ∀ r, assume ⟨e, r⟩ → Given assume post (f r)) :
    Given assume post (perform e >>= f) := h

theorem Given.bind {assume : Event E R → Prop} {mid : α → Prop} {post : β → Prop}
    {p : Program E R α} {f : α → Program E R β} (first : Given assume mid p)
    (second : ∀ a, mid a → Given assume post (f a)) : Given assume post (p >>= f) := by
  induction p with
  | pure a => exact second a first
  | request e next ih => exact fun r met => ih r (first r met)

theorem Given.any {assume : Event E R → Prop} {post : α → Prop} (sure : ∀ a, post a)
    (p : Program E R α) : Given assume post p := by
  induction p with
  | pure a => exact sure a
  | request e next ih => exact fun r _ => ih r

theorem Given.runs {assume : Event E R → Prop} {post : α → Prop} {p : Program E R α}
    {tr : List (Event E R)} {a : α} (h : Given assume post p) (run : Runs p tr a)
    (met : ∀ ev ∈ tr, assume ev) : post a := by
  induction run with
  | pure a => exact h
  | request r _ ih =>
      rw [List.forall_mem_cons] at met
      exact ih (h r met.1) met.2

/-- A run against an environment that answers from the history so far. -/
def exec (answer : List (Event E R) → (e : E) → R e) :
    Program E R α → List (Event E R) → List (Event E R) × α
  | .pure a, _ => ([], a)
  | .request e next, past =>
      let r := answer past e
      let rest := exec answer (next r) (past ++ [⟨e, r⟩])
      (⟨e, r⟩ :: rest.1, rest.2)

/-- Programs never get stuck: every environment completes every program. -/
theorem exec_runs (answer : List (Event E R) → (e : E) → R e) (p : Program E R α)
    (past : List (Event E R)) : Runs p (exec answer p past).1 (exec answer p past).2 := by
  induction p generalizing past with
  | pure a => exact .pure a
  | request e next ih => exact .request _ (ih (answer past e) _)

/-- Replies that do not depend on the history are the replies of every event. -/
theorem exec_answered {answer : List (Event E R) → (e : E) → R e} {reply : (e : E) → R e}
    (same : ∀ past e, answer past e = reply e) (p : Program E R α) (past : List (Event E R)) :
    ∀ ev ∈ (exec answer p past).1, ev.2 = reply ev.1 := by
  induction p generalizing past with
  | pure a => nofun
  | request e next ih =>
      intro ev member
      rcases List.mem_cons.mp member with rfl | later
      · exact same past e
      · exact ih _ _ ev later

/-- Where every reply meets the assumption, the run ends as promised. -/
theorem Given.exec {assume : Event E R → Prop} {post : α → Prop} {answer : List (Event E R) → (e : E) → R e}
    (met : ∀ past e, assume ⟨e, answer past e⟩) {p : Program E R α} (h : Given assume post p)
    (past : List (Event E R)) : post (exec answer p past).2 := by
  induction p generalizing past with
  | pure a => exact h
  | request e next ih => exact ih _ (h _ (met past e)) _

theorem exists_run [∀ e, Nonempty (R e)] (p : Program E R α) : ∃ tr a, Runs p tr a :=
  ⟨_, _, exec_runs (fun _ _ => Classical.choice inferInstance) p []⟩

theorem Within.of_runs [∀ e, Nonempty (R e)] {allowed : E → Prop} {p : Program E R α}
    (h : ∀ tr a, Runs p tr a → ∀ ev ∈ tr, allowed ev.1) : Within allowed p := by
  induction p with
  | pure a => trivial
  | request e next ih =>
      have later : ∀ r, Within allowed (next r) := fun r =>
        ih r fun tr a run ev member => h _ a (.request r run) ev (List.mem_cons_of_mem _ member)
      obtain ⟨r⟩ : Nonempty (R e) := inferInstance
      obtain ⟨tr, a, run⟩ := exists_run (next r)
      exact ⟨h _ a (.request r run) ⟨e, r⟩ List.mem_cons_self, later⟩

end Program
end Interaction
