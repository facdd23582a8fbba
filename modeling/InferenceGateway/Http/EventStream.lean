import Mathlib

/-! The text of server-sent events: data events with a single-line payload, and bodies that
are a sequence of them closed by one terminator. -/
namespace EventStream

def dataEvent (payload : String) : String := "data: " ++ payload ++ "\n\n"

def namedEvent (name payload : String) : String := "event: " ++ name ++ "\n" ++ dataEvent payload

def SingleLine (text : String) : Prop := '\n' ∉ text.toList

/-- An event that closes a stream: an agreed payload, or an event of an agreed name. -/
def Terminator (mark name event : String) : Prop :=
  event = dataEvent mark ∨ ∃ payload, SingleLine payload ∧ event = namedEvent name payload

/-- Data events that do not close the stream, and then exactly one event that does. -/
def Framed (mark name body : String) : Prop :=
  ∃ (payloads : List String) (last : String), (∀ p ∈ payloads, SingleLine p ∧ p ≠ mark) ∧ Terminator mark name last ∧
    body = String.join (payloads.map dataEvent) ++ last

theorem dataEvent_ends (payload : String) :
    ∃ init, (dataEvent payload).toList = init ++ ['\n', '\n'] :=
  ⟨("data: " ++ payload).toList, by simp [dataEvent]⟩

theorem Terminator.ends {mark name event : String} (h : Terminator mark name event) :
    ∃ init, event.toList = init ++ ['\n', '\n'] := by
  rcases h with rfl | ⟨payload, -, rfl⟩
  · exact dataEvent_ends mark
  · obtain ⟨init, same⟩ := dataEvent_ends payload
    exact ⟨("event: " ++ name ++ "\n").toList ++ init, by simp [namedEvent, same]⟩

/-- A framed body ends with the blank line of its terminator. -/
theorem Framed.ends {mark name body : String} (h : Framed mark name body) :
    ∃ init, body.toList = init ++ ['\n', '\n'] := by
  obtain ⟨payloads, last, -, closing, rfl⟩ := h
  obtain ⟨init, same⟩ := closing.ends
  exact ⟨(String.join (payloads.map dataEvent)).toList ++ init, by simp [same]⟩

theorem dataEvent_append_inj {p q x y : String} (single : SingleLine p) (single' : SingleLine q)
    (same : dataEvent p ++ x = dataEvent q ++ y) : p = q ∧ x = y := by
  have cut {line : String} (rest : List Char) (h : SingleLine line) :
      (line.toList ++ '\n' :: rest).takeWhile (fun c => c != '\n') = line.toList := by
    have plain : ∀ c ∈ line.toList, (c != '\n') = true := fun c member =>
      bne_iff_ne.mpr fun newline => h (newline ▸ member)
    rw [List.takeWhile_append_of_pos plain, List.takeWhile_cons_of_neg (by simp), List.append_nil]
  have letters : p.toList ++ '\n' :: '\n' :: x.toList = q.toList ++ '\n' :: '\n' :: y.toList := by
    simpa [dataEvent] using congrArg String.toList same
  have payload : p.toList = q.toList := by
    rw [← cut _ single, letters, cut _ single']
  rw [payload] at letters
  have rest := List.append_cancel_left letters
  simp only [List.cons.injEq, true_and] at rest
  exact ⟨String.toList_injective payload, String.toList_injective rest⟩

/-- A body determines the payloads of its events. -/
theorem dataEvents_inj {ps qs : List String} (single : ∀ p ∈ ps, SingleLine p)
    (single' : ∀ q ∈ qs, SingleLine q)
    (same : String.join (ps.map dataEvent) = String.join (qs.map dataEvent)) : ps = qs := by
  have nonempty (q x : String) : "" ≠ dataEvent q ++ x := by
    intro empty
    have letters := congrArg String.toList empty
    simp [dataEvent] at letters
  induction ps generalizing qs with
  | nil =>
      cases qs with
      | nil => rfl
      | cons q qs =>
          rw [List.map_cons, String.join_cons] at same
          exact absurd same (nonempty _ _)
  | cons p ps ih =>
      cases qs with
      | nil =>
          rw [List.map_cons, String.join_cons] at same
          exact absurd same.symm (nonempty _ _)
      | cons q qs =>
          rw [List.map_cons, List.map_cons, String.join_cons, String.join_cons] at same
          rw [List.forall_mem_cons] at single single'
          obtain ⟨rfl, rest⟩ := dataEvent_append_inj single.1 single'.1 same
          rw [ih single.2 single'.2 rest]

end EventStream
