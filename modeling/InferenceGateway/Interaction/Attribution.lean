import Mathlib

/-! Who emitted what in a trace: every emission belongs to the source that was started last. -/
namespace Interaction

section
variable {ε σ : Type} (starts : ε → Option σ) (emits : ε → Bool)

/-- The sources of the emissions of a trace, in order. -/
def attributed : Option σ → List ε → List (Option σ)
  | _, [] => []
  | source, ev :: tr =>
      if emits ev then source :: attributed source tr
      else attributed ((starts ev).or source) tr

variable {starts emits} {source : Option σ} {ev : ε} {tr first second : List ε}

theorem attributed_emit (emitted : emits ev = true) :
    attributed starts emits source (ev :: tr) = source :: attributed starts emits source tr :=
  if_pos emitted

theorem attributed_start (silent : emits ev = false) :
    attributed starts emits source (ev :: tr) = attributed starts emits ((starts ev).or source) tr :=
  if_neg (Bool.not_eq_true _ ▸ silent)

/-- An event that neither starts nor emits leaves no mark. -/
theorem attributed_neutral (silent : emits ev = false) (unstarted : starts ev = none) :
    attributed starts emits source (ev :: tr) = attributed starts emits source tr := by
  rw [attributed_start silent, unstarted, Option.none_or]

theorem attributed_append_neutral (silent : ∀ ev ∈ first, emits ev = false)
    (unstarted : ∀ ev ∈ first, starts ev = none) :
    attributed starts emits source (first ++ second) = attributed starts emits source second := by
  induction first with
  | nil => rfl
  | cons ev first ih =>
      rw [List.forall_mem_cons] at silent unstarted
      rw [List.cons_append, attributed_neutral silent.1 unstarted.1, ih silent.2 unstarted.2]

theorem attributed_append_silent (silent : ∀ ev ∈ second, emits ev = false) :
    attributed starts emits source (first ++ second) = attributed starts emits source first := by
  induction first generalizing source with
  | nil =>
      induction second generalizing source with
      | nil => rfl
      | cons ev second ih =>
          rw [List.forall_mem_cons] at silent
          rw [List.nil_append, attributed_start silent.1]
          exact ih silent.2
  | cons ev first ih =>
      cases emitted : emits ev with
      | true => rw [List.cons_append, attributed_emit emitted, attributed_emit emitted, ih]
      | false => rw [List.cons_append, attributed_start emitted, attributed_start emitted, ih]

/-- Dropping events that neither start nor emit changes nothing. -/
theorem attributed_filter {keep : ε → Bool} (silent : ∀ ev, keep ev = false → emits ev = false)
    (unstarted : ∀ ev, keep ev = false → starts ev = none) :
    attributed starts emits source (tr.filter keep) = attributed starts emits source tr := by
  induction tr generalizing source with
  | nil => rfl
  | cons ev tr ih =>
      cases kept : keep ev with
      | false =>
          rw [List.filter_cons_of_neg (by simp [kept]),
            attributed_neutral (silent ev kept) (unstarted ev kept), ih]
      | true =>
          rw [List.filter_cons_of_pos kept]
          cases emitted : emits ev with
          | true => rw [attributed_emit emitted, attributed_emit emitted, ih]
          | false => rw [attributed_start emitted, attributed_start emitted, ih]

end

end Interaction
