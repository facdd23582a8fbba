import InferenceGateway.Ledger.Writer

/-! How many rows one InsertBatch gets. The select flushes at batchSize; the drain loop appends
whatever it finds, so its slice is what waits at the shutdown and what Record still gets in. -/
namespace Gateway.Ledger

namespace Writer
variable {w next : Writer} {e : Entry}

/-- The slice InsertBatch has been called with and not returned from. -/
def inFlight (w : Writer) : List (List Entry) :=
  match w.phase with
  | .inserting _ => [w.batch]
  | _ => []

/-- The select is never entered with a full batch. -/
def Roomy (w : Writer) : Prop := w.phase = .selecting → w.batch.length < w.batchSize

@[simp] theorem flush_batchSize (last : Bool) : (w.flush last).batchSize = w.batchSize := by
  unfold flush
  split <;> rfl

theorem inFlight_of_not_inserting (idle : ∀ last, w.phase ≠ .inserting last) : w.inFlight = [] := by
  unfold inFlight
  split
  · rename_i last inside
    exact absurd inside (idle last)
  · rfl

theorem flush_inFlight (last : Bool) :
    (w.flush last).inFlight = if w.batch = [] then [] else [w.batch] := by
  unfold flush
  split
  · cases last <;> rfl
  · rfl

theorem mem_flush_inFlight {last : Bool} {slice : List Entry}
    (member : slice ∈ (w.flush last).inFlight) : slice = w.batch := by
  rw [flush_inFlight] at member
  split at member
  · cases member
  · exact List.mem_singleton.mp member

@[simp] theorem take_batchSize : (w.take e).batchSize = w.batchSize := by
  unfold take
  split
  · exact flush_batchSize false
  · rfl

theorem flush_roomy (room : w.batch.length < w.batchSize) : (w.flush false).Roomy := by
  intro selecting
  rw [flush_batch, flush_batchSize]
  exact room

theorem flush_true_roomy : (w.flush true).Roomy := by
  intro selecting
  unfold flush at selecting
  split at selecting <;> cases selecting

theorem take_roomy : (w.take e).Roomy := by
  unfold take
  split
  · intro selecting
    unfold flush at selecting
    split at selecting
    · rename_i none_left
      simp [append] at none_left
    · cases selecting
  · rename_i short
    exact fun _ => Nat.lt_of_not_le short

theorem mem_take_inFlight (selecting : w.phase = .selecting)
    (room : w.batch.length < w.batchSize) {slice : List Entry}
    (member : slice ∈ (w.take e).inFlight) : slice.length ≤ w.batchSize := by
  unfold take at member
  split at member
  · rw [mem_flush_inFlight member]
    simp only [append, List.length_append, List.length_singleton]
    omega
  · rw [inFlight_of_not_inserting] at member
    · cases member
    · intro last inside
      change w.phase = _ at inside
      rw [selecting] at inside
      cases inside

end Writer

namespace World
variable {w next : World}

/-- Every slice InsertBatch has been called with. -/
def passed (w : World) : List (List Entry) := w.inserts.map Insert.entries ++ w.writer.inFlight

/-- What a step does to the slices: it keeps them, and a new one is a batch with room, or what
the drain loop has collected. -/
structure Slices (w next : World) (ev : Event) : Prop where
  kept : ∀ slice ∈ w.passed, slice ∈ next.passed
  added : ∀ slice ∈ next.passed, slice ∈ w.passed ∨ slice.length ≤ w.writer.batchSize ∨
    (ev = .drain ∧ w.writer.phase = .draining ∧ w.writer.entries = [] ∧ slice = w.writer.batch)
  roomy : next.writer.Roomy
  batchSize : next.writer.batchSize = w.writer.batchSize

theorem passed_of_idle (idle : ∀ last, w.writer.phase ≠ .inserting last) :
    w.passed = w.inserts.map Insert.entries := by
  rw [passed, Writer.inFlight_of_not_inserting idle, List.append_nil]

/-- Outside InsertBatch a step passes on what it comes to be in flight. -/
theorem Slices.of_idle {ev : Event} (idle : ∀ last, w.writer.phase ≠ .inserting last)
    (inserts : next.inserts = w.inserts)
    (added : ∀ slice ∈ next.writer.inFlight, slice.length ≤ w.writer.batchSize ∨
      (ev = .drain ∧ w.writer.phase = .draining ∧ w.writer.entries = [] ∧ slice = w.writer.batch))
    (roomy : next.writer.Roomy) (batchSize : next.writer.batchSize = w.writer.batchSize) :
    Slices w next ev where
  kept := by
    intro slice member
    rw [passed_of_idle idle, ← inserts] at member
    exact List.mem_append_left _ member
  added := by
    intro slice member
    rw [passed_of_idle idle, ← inserts]
    rcases List.mem_append.mp member with old | new
    · exact .inl old
    · exact .inr (added slice new)
  roomy := roomy
  batchSize := batchSize

theorem Slices.of_passed {ev : Event} (same : next.passed = w.passed) (roomy : next.writer.Roomy)
    (batchSize : next.writer.batchSize = w.writer.batchSize) : Slices w next ev where
  kept := by
    rw [same]
    exact fun _ member => member
  added := by
    rw [same]
    exact fun _ member => .inl member
  roomy := roomy
  batchSize := batchSize

theorem idle_of_phase {phase : Phase} (here : w.writer.phase = phase)
    (other : ∀ last, phase ≠ .inserting last) (last : Bool) : w.writer.phase ≠ .inserting last := by
  rw [here]
  exact other last

theorem Slices.of_take {ev : Event} {e : Entry} {writer : Writer}
    (taken : next.writer = writer.take e) (roomy : w.writer.Roomy)
    (selecting : w.writer.phase = .selecting) (phase : writer.phase = w.writer.phase)
    (batch : writer.batch = w.writer.batch) (batchSize : writer.batchSize = w.writer.batchSize)
    (inserts : next.inserts = w.inserts) : Slices w next ev := by
  have room := roomy selecting
  refine .of_idle (idle_of_phase selecting (by simp)) inserts ?_ ?_ ?_
  · intro slice member
    rw [taken] at member
    refine .inl ?_
    rw [← batchSize]
    refine Writer.mem_take_inFlight (phase.trans selecting) ?_ member
    rw [batch, batchSize]
    exact room
  · rw [taken]
    exact Writer.take_roomy
  · rw [taken, Writer.take_batchSize, batchSize]

theorem Slices.step {ev : Event} (roomy : w.writer.Roomy) (pos : 0 < w.writer.batchSize)
    (moved : w.step ev = some next) : Slices w next ev := by
  cases stepped moved with
  | handed e blocked ready =>
      exact .of_take rfl roomy (Writer.waiting_cases ready).1 rfl rfl rfl rfl
  | buffered e blocked => exact .of_passed rfl roomy rfl
  | lost e blocked => exact .of_passed rfl roomy rfl
  | received selecting _ => exact .of_take rfl roomy selecting rfl rfl rfl rfl
  | ticked selecting =>
      have room := roomy selecting
      refine .of_idle (idle_of_phase selecting (by simp)) rfl ?_ (Writer.flush_roomy room)
        (Writer.flush_batchSize false)
      intro slice member
      rw [Writer.mem_flush_inFlight member]
      exact .inl room.le
  | stopped selecting _ =>
      refine .of_idle (idle_of_phase selecting (by simp)) rfl ?_ ?_ rfl
      · intro slice member
        cases member
      · intro again
        cases again
  | drained draining _ =>
      refine .of_idle (idle_of_phase draining (by simp)) rfl ?_ ?_ rfl
      · intro slice member
        simp [Writer.inFlight, Writer.append, draining] at member
      · intro selecting
        simp [Writer.append, draining] at selecting
  | emptied draining entries =>
      refine .of_idle (idle_of_phase draining (by simp)) rfl ?_ Writer.flush_true_roomy
        (Writer.flush_batchSize true)
      intro slice member
      exact .inr ⟨rfl, draining, entries, Writer.mem_flush_inFlight member⟩
  | @returned last err inside =>
      refine .of_passed ?_ (fun _ => pos) rfl
      cases last <;> simp [passed, World.inserted, Writer.inFlight, inside]
  | closed => exact .of_passed rfl roomy rfl

/-- In the run of `events` the drain loop begins in `before` and finds the buffer empty in
`found`. -/
def Drains (first : World) (events : List Event) (before found : World) : Prop :=
  ∃ live between rest, events = live ++ .ctxDone :: (between ++ .drain :: rest) ∧
    first.run live = some before ∧ before.run (.ctxDone :: between) = some found ∧
    found.writer.phase = .draining ∧ found.writer.entries = []

/-- The rows waiting when the drain loop begins, and those that Record gets in until it ends. -/
def drainedRows (before found : World) : Nat :=
  before.writer.backlog.length + (found.accepted.length - before.accepted.length)

/-- Taking part in the select, draining, or past the drain loop. -/
def stage (w : World) : Nat :=
  match w.writer.phase with
  | .selecting | .inserting false => 0
  | .draining => 1
  | .inserting true | .done => 2

theorem stage_eq_one_iff : w.stage = 1 ↔ w.writer.phase = .draining := by
  unfold stage
  split <;> simp_all

theorem stage_eq_zero (here : w.writer.phase = .selecting ∨ w.writer.phase = .inserting false) :
    w.stage = 0 := by
  unfold stage
  rcases here with phase | phase <;> rw [phase]

theorem stage_of_phase (same : next.writer.phase = w.writer.phase) : next.stage = w.stage := by
  unfold stage
  rw [same]

/-- Only the shutdown leads into the drain loop, and nothing leads back. -/
theorem step_stage {ev : Event} (moved : w.step ev = some next) :
    (next.stage = w.stage ∧ (w.stage = 1 → next.inserts = w.inserts)) ∨
      (w.stage = 0 ∧ ev = .ctxDone ∧ next.stage = 1) ∨ (w.stage = 1 ∧ next.stage = 2) := by
  cases stepped moved with
  | handed e blocked ready =>
      have selecting := (Writer.waiting_cases ready).1
      refine .inl ⟨?_, fun _ => rfl⟩
      rw [stage_eq_zero (.inl selecting)]
      exact stage_eq_zero (Writer.take_phase selecting)
  | buffered e blocked => exact .inl ⟨stage_of_phase rfl, fun _ => rfl⟩
  | lost e blocked => exact .inl ⟨stage_of_phase rfl, fun _ => rfl⟩
  | received selecting _ =>
      refine .inl ⟨?_, fun _ => rfl⟩
      rw [stage_eq_zero (.inl selecting)]
      exact stage_eq_zero (Writer.take_phase selecting)
  | ticked selecting =>
      refine .inl ⟨?_, fun _ => rfl⟩
      rw [stage_eq_zero (.inl selecting)]
      exact stage_eq_zero Writer.flush_false_phase
  | stopped selecting _ => exact .inr (.inl ⟨stage_eq_zero (.inl selecting), rfl, rfl⟩)
  | drained _ _ => exact .inl ⟨stage_of_phase rfl, fun _ => rfl⟩
  | emptied draining _ =>
      refine .inr (.inr ⟨stage_eq_one_iff.mpr draining, ?_⟩)
      unfold Writer.flush
      split <;> rfl
  | @returned last err inside => cases last <;> simp [stage, World.inserted, inside]
  | closed => exact .inl ⟨stage_of_phase rfl, fun _ => rfl⟩

theorem run_stage_le {events : List Event} (moved : w.run events = some next) :
    w.stage ≤ next.stage := by
  induction events generalizing w with
  | nil =>
      cases moved
      exact Nat.le_refl _
  | cons ev events ih =>
      obtain ⟨middle, first, rest⟩ := Option.bind_eq_some_iff.mp moved
      have later := ih rest
      rcases step_stage first with ⟨same, -⟩ | ⟨zero, -, one⟩ | ⟨one, two⟩ <;> omega

/-- The drain loop inserts nothing until it is left. -/
theorem draining_run {events : List Event} (moved : w.run events = some next)
    (draining : w.stage = 1) (still : next.stage = 1) : next.inserts = w.inserts := by
  induction events generalizing w with
  | nil =>
      cases moved
      rfl
  | cons ev events ih =>
      obtain ⟨middle, first, rest⟩ := Option.bind_eq_some_iff.mp moved
      have later := run_stage_le rest
      rcases step_stage first with ⟨same, inserts⟩ | ⟨zero, -⟩ | ⟨-, two⟩
      · rw [ih rest (same.trans draining), inserts draining]
      · omega
      · omega

theorem step_accepted {ev : Event} (moved : w.step ev = some next) :
    w.accepted <+: next.accepted := by
  cases stepped moved with
  | handed e blocked _ => exact List.prefix_append _ _
  | buffered e blocked => exact List.prefix_append _ _
  | _ => exact List.prefix_refl _

theorem run_accepted {events : List Event} (moved : w.run events = some next) :
    w.accepted <+: next.accepted := by
  induction events generalizing w with
  | nil =>
      cases moved
      exact List.prefix_refl _
  | cons ev events ih =>
      obtain ⟨middle, first, rest⟩ := Option.bind_eq_some_iff.mp moved
      exact (step_accepted first).trans (ih rest)

/-- What the drain loop has collected is all of that. -/
theorem batch_of_drained {dropped : Nat} {before found : World} {between : List Event}
    (accounted : before.Accounted dropped) (moved : before.run (.ctxDone :: between) = some found)
    (draining : found.writer.phase = .draining) (empty : found.writer.entries = []) :
    found.writer.batch.length = drainedRows before found := by
  have later := (accounted.run moved).order
  have order := accounted.order
  have grown := (run_accepted moved).length_le
  obtain ⟨middle, first, rest⟩ := Option.bind_eq_some_iff.mp moved
  have inserts : found.inserts = before.inserts := by
    cases stepped first with
    | stopped _ _ =>
        have kept := draining_run rest rfl (stage_eq_one_iff.mpr draining)
        exact kept
  have lengths := congrArg List.length later
  have lengths_before := congrArg List.length order
  rw [inserts, Writer.backlog, empty, List.append_nil, List.length_append] at lengths
  rw [List.length_append] at lengths_before
  unfold drainedRows
  omega

theorem run_passed {events : List Event} (roomy : w.writer.Roomy) (pos : 0 < w.writer.batchSize)
    (moved : w.run events = some next) : ∀ slice ∈ w.passed, slice ∈ next.passed := by
  induction events generalizing w with
  | nil =>
      cases moved
      exact fun _ member => member
  | cons ev events ih =>
      obtain ⟨middle, first, rest⟩ := Option.bind_eq_some_iff.mp moved
      have slices := Slices.step roomy pos first
      intro slice member
      exact ih slices.roomy (slices.batchSize ▸ pos) rest slice (slices.kept slice member)

/-- Where a run has come to. -/
structure Ran (first : World) (events : List Event) (w : World) : Prop where
  roomy : w.writer.Roomy
  batchSize : w.writer.batchSize = first.writer.batchSize
  draining : w.stage = 1 → ∃ live between before, events = live ++ .ctxDone :: between ∧
    first.run live = some before ∧ before.run (.ctxDone :: between) = some w
  slices : ∀ slice ∈ w.passed, slice.length ≤ first.writer.batchSize ∨
    ∃ before found, Drains first events before found ∧ slice = found.writer.batch

theorem run_snoc {events : List Event} {ev : Event} (moved : w.run events = some next) {last : World}
    (step : next.step ev = some last) : w.run (events ++ [ev]) = some last := by
  refine run_append_of moved ?_
  simp only [World.run, step, Option.bind_some]

theorem Drains.append {first before found : World} {events : List Event}
    (h : Drains first events before found) (more : List Event) :
    Drains first (events ++ more) before found := by
  obtain ⟨live, between, rest, rfl, reached, moved, stands⟩ := h
  refine ⟨live, between, rest ++ more, ?_, reached, moved, stands⟩
  simp only [List.append_assoc, List.cons_append]

theorem Ran.step {first : World} {events : List Event} {ev : Event} (h : Ran first events w)
    (ran : first.run events = some w) (pos : 0 < first.writer.batchSize)
    (moved : w.step ev = some next) : Ran first (events ++ [ev]) next := by
  have slices := Slices.step h.roomy (h.batchSize ▸ pos) moved
  refine ⟨slices.roomy, slices.batchSize.trans h.batchSize, ?_, ?_⟩
  · intro draining
    rcases step_stage moved with ⟨same, -⟩ | ⟨-, rfl, -⟩ | ⟨-, two⟩
    · obtain ⟨live, between, before, rfl, reached, later⟩ := h.draining (same.symm.trans draining)
      refine ⟨live, between ++ [ev], before, ?_, reached, run_snoc later moved⟩
      rw [List.append_assoc, List.cons_append]
    · refine ⟨events, [], w, rfl, ran, ?_⟩
      simp only [World.run, moved, Option.bind_some]
    · omega
  · intro slice member
    rcases slices.added slice member with old | small | ⟨rfl, draining, empty, rfl⟩
    · rcases h.slices slice old with small | ⟨before, found, drains, same⟩
      · exact .inl small
      · exact .inr ⟨before, found, drains.append [ev], same⟩
    · exact .inl (h.batchSize ▸ small)
    · obtain ⟨live, between, before, rfl, reached, later⟩ :=
        h.draining (stage_eq_one_iff.mpr draining)
      refine .inr ⟨before, w, ⟨live, between, [], ?_, reached, later, draining, empty⟩, rfl⟩
      rw [List.append_assoc, List.cons_append]

theorem Ran.run {first : World} {events more : List Event} (h : Ran first events w)
    (ran : first.run events = some w) (pos : 0 < first.writer.batchSize)
    (moved : w.run more = some next) : Ran first (events ++ more) next := by
  induction more generalizing events w with
  | nil =>
      cases moved
      rwa [List.append_nil]
  | cons ev more ih =>
      obtain ⟨middle, first_step, rest⟩ := Option.bind_eq_some_iff.mp moved
      have later := ih (h.step ran pos first_step) (run_snoc ran first_step) rest
      rwa [List.append_assoc, List.singleton_append] at later

theorem start_ran (bufferSize batchSize dropped : Nat) (pos : 0 < batchSize) :
    Ran (start bufferSize batchSize dropped) [] (start bufferSize batchSize dropped) where
  roomy := fun _ => pos
  batchSize := rfl
  draining := fun one => by cases one
  slices := fun slice member => by cases member

/-- The slice of the drain loop is passed on, unless it is empty. -/
theorem Drains.passed {first before found : World} {events : List Event}
    (h : Drains first events before found) (start : Ran first [] first)
    (pos : 0 < first.writer.batchSize) (moved : first.run events = some w)
    (nonempty : found.writer.batch ≠ []) : found.writer.batch ∈ w.passed := by
  obtain ⟨live, between, rest, rfl, reached, later, draining, empty⟩ := h
  have until_found := run_append_of reached later
  rw [show live ++ Event.ctxDone :: (between ++ .drain :: rest) =
    (live ++ .ctxDone :: between) ++ .drain :: rest by simp] at moved
  obtain ⟨middle, same, onward⟩ := run_append moved
  cases until_found.symm.trans same
  obtain ⟨flushed, drained, onward⟩ := Option.bind_eq_some_iff.mp onward
  have ran := (start.run rfl pos until_found).step until_found pos drained
  refine run_passed ran.roomy (ran.batchSize ▸ pos) onward _ ?_
  cases stepped drained with
  | drained _ entries => cases empty.symm.trans entries
  | emptied _ _ =>
      refine List.mem_append_right _ ?_
      rw [Writer.flush_inFlight, if_neg nonempty]
      exact List.mem_singleton_self _

/-- No insert exceeds the batch size exactly if the rows the drain loop finds, those waiting at
the shutdown and those recorded into it, fit in one batch. -/
theorem inserts_within_batchSize_iff {bufferSize batchSize dropped : Nat} {events : List Event}
    (pos : 1 ≤ batchSize) (moved : (start bufferSize batchSize dropped).run events = some w) :
    (∀ slice ∈ w.passed, slice.length ≤ batchSize) ↔
      ∀ before found, Drains (start bufferSize batchSize dropped) events before found →
        drainedRows before found ≤ batchSize := by
  have begun := start_ran bufferSize batchSize dropped pos
  have collected : ∀ {before found : World},
      Drains (start bufferSize batchSize dropped) events before found →
        found.writer.batch.length = drainedRows before found := by
    intro before found drains
    obtain ⟨live, between, rest, -, reached, later, draining, empty⟩ := drains
    exact batch_of_drained ((start_accounted _ _ dropped).run reached) later draining empty
  constructor
  · intro bounded before found drains
    rw [← collected drains]
    by_cases nothing : found.writer.batch = []
    · rw [nothing]
      exact Nat.zero_le _
    · exact bounded _ (drains.passed begun pos moved nothing)
  · intro fits slice member
    rcases (begun.run rfl pos moved).slices slice member with small | ⟨before, found, drains, rfl⟩
    · exact small
    · rw [collected drains]
      exact fits before found drains

/-- Two rows are waiting when the writer sees the shutdown. -/
def shutdown : List Event :=
  [.record (row "r1") false, .record (row "r2") false, .close, .ctxDone, .drain, .drain, .drain,
    .inserted none]

def shutDown (batchSize : Nat) : World where
  writer := { bufferSize := 2, batchSize, phase := .done, cancelled := true }
  ledgerDroppedTotal := 0
  recorded := [row "r1", row "r2"]
  accepted := [row "r1", row "r2"]
  inserts := [⟨[row "r1", row "r2"], none⟩]

theorem shutdown_run (batchSize : Nat) :
    (start 2 batchSize 0).run shutdown = some (shutDown batchSize) := rfl

theorem two_rows_fit :
    (∀ slice ∈ (shutDown 2).passed, slice.length ≤ 2) ∧
      ∀ before found, Drains (start 2 2 0) shutdown before found → drainedRows before found ≤ 2 := by
  have small : ∀ slice ∈ (shutDown 2).passed, slice.length ≤ 2 := by decide
  exact ⟨small, (inserts_within_batchSize_iff (by decide) (shutdown_run 2)).mp small⟩

/-- The batch size is 1 and both rows go into one insert. -/
theorem two_rows_in_one_insert :
    1 ≤ 1 ∧ (start 2 1 0).run shutdown = some (shutDown 1) ∧
      ¬ ∀ slice ∈ (shutDown 1).passed, slice.length ≤ 1 :=
  ⟨le_rfl, shutdown_run 1, by decide⟩

end World
end Gateway.Ledger
