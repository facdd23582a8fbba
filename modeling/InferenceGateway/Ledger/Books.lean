import InferenceGateway.Ledger.Table

/-! The writer and the table it fills. Whatever the order of the steps, a recorded entry is
in the table, went down with a failed insert, is still with the writer, or was refused. -/
namespace Gateway.Ledger

structure Books where
  ledger : World
  table : Table

/-- The goroutine's own steps, Close, and the end of a COPY. -/
inductive Background where
  | receive
  | tick
  | ctxDone
  | drain
  | close
  | copied (copy : Copy)

def Background.event : Background → Table → List Entry → Event
  | .receive, _, _ => .receive
  | .tick, _, _ => .tick
  | .ctxDone, _, _ => .ctxDone
  | .drain, _, _ => .drain
  | .close, _, _ => .close
  | .copied copy, table, batch => .inserted (copy.insertBatch table batch).1

def Background.fill : Background → Table → List Entry → Table
  | .copied copy, table, batch => (copy.insertBatch table batch).2
  | _, table, _ => table

namespace Books

def start (bufferSize batchSize dropped : Nat) (table : Table) : Books :=
  ⟨.start bufferSize batchSize dropped, table⟩

def step (b : Books) (ev : Background) : Option Books :=
  (b.ledger.step (ev.event b.table b.ledger.writer.batch)).map fun ledger =>
    ⟨ledger, ev.fill b.table b.ledger.writer.batch⟩

/-- What the writer is not ready for does not happen. -/
def advance (b : Books) (ev : Background) : Books := (b.step ev).getD b

def meanwhile (b : Books) (events : List Background) : Books := events.foldl advance b

def record (b : Books) (e : Entry) (blocked : Bool) : Books :=
  { b with ledger := b.ledger.record e blocked }

/-- Where the entries recorded since the start are. -/
structure Accounted (b : Books) (dropped : Nat) (old : Table) (kept lost refused : List Entry) :
    Prop where
  ledger : b.ledger.Accounted dropped
  stored : ∃ new : Table, b.table = old ++ new ∧ new.map Row.entry = kept.map Entry.stored
  inserted : (b.ledger.inserts.map Insert.entries).flatten.Perm (kept ++ lost)
  failed : ∀ e ∈ lost, ∃ call ∈ b.ledger.inserts, e ∈ call.entries ∧ call.err ≠ none
  recorded : b.ledger.recorded.Perm (b.ledger.accepted ++ refused)

def Explained (b : Books) (dropped : Nat) (old : Table) : Prop :=
  ∃ kept lost refused, b.Accounted dropped old kept lost refused

variable {b next : Books} {dropped : Nat} {old : Table} {kept lost refused : List Entry}

theorem start_explained (bufferSize batchSize dropped : Nat) (old : Table) :
    (start bufferSize batchSize dropped old).Explained dropped old :=
  ⟨[], [], [], World.start_accounted bufferSize batchSize dropped, ⟨[], (List.append_nil old).symm, rfl⟩,
    .refl _, nofun, .refl _⟩

theorem Accounted.conserved (h : b.Accounted dropped old kept lost refused) :
    b.ledger.recorded.Perm (kept ++ (lost ++ b.ledger.writer.backlog ++ refused)) := by
  refine h.recorded.trans ?_
  have moved := (h.inserted.append_right b.ledger.writer.backlog).append_right refused
  rw [h.ledger.order]
  simpa only [List.append_assoc] using moved

/-- The counter has what was refused. -/
theorem Accounted.refused_length (h : b.Accounted dropped old kept lost refused) :
    refused.length + dropped = b.ledger.ledgerDroppedTotal := by
  have lengths := h.recorded.length_eq
  have counted := h.ledger.counted
  rw [List.length_append] at lengths
  omega

/-- The goroutine's own steps and Close ask nothing of Record or InsertBatch. -/
theorem unasked {w later : World} {ev : Event} (moved : w.step ev = some later)
    (other : ev.isRecord = false) (idle : ∀ err, ev ≠ .inserted err) :
    later.inserts = w.inserts ∧ later.recorded = w.recorded ∧ later.accepted = w.accepted := by
  cases World.stepped moved with
  | handed e blocked _ => cases other
  | buffered e blocked => cases other
  | lost e blocked => cases other
  | returned err _ => exact absurd rfl (idle err)
  | _ => exact ⟨rfl, rfl, rfl⟩

theorem Accounted.unasked (h : b.Accounted dropped old kept lost refused) {ledger : World}
    {ev : Event} (moved : b.ledger.step ev = some ledger) (other : ev.isRecord = false)
    (idle : ∀ err, ev ≠ .inserted err) :
    Accounted ⟨ledger, b.table⟩ dropped old kept lost refused := by
  obtain ⟨inserts, recorded, accepted⟩ := Books.unasked moved other idle
  refine ⟨h.ledger.step moved, h.stored, ?_, ?_, ?_⟩
  · rw [inserts]
    exact h.inserted
  · rw [inserts]
    exact h.failed
  · rw [recorded, accepted]
    exact h.recorded

/-- The batch of a COPY is kept or lost as a whole. -/
theorem Accounted.copied (h : b.Accounted dropped old kept lost refused) (copy : Copy)
    {ledger : World}
    (moved : b.ledger.step (.inserted (copy.insertBatch b.table b.ledger.writer.batch).1) = some ledger) :
    Explained ⟨ledger, (copy.insertBatch b.table b.ledger.writer.batch).2⟩ dropped old := by
  have accounted := h.ledger.step moved
  cases World.stepped moved with
  | returned err inside =>
  obtain ⟨new, split, entries⟩ := h.stored
  rcases copy.insertBatch_cases b.table b.ledger.writer.batch with stored | ⟨unstored, failed⟩
  · refine ⟨kept ++ b.ledger.writer.batch, lost, refused, accounted,
      ⟨new ++ copy.rows b.ledger.writer.batch, ?_, ?_⟩, ?_, ?_, h.recorded⟩
    · rw [stored, split, List.append_assoc]
    · simp [entries]
    · have moved := h.inserted.append_right b.ledger.writer.batch
      simp only [World.inserted, List.map_append, List.flatten_append, List.map_singleton,
        List.flatten_singleton]
      refine moved.trans ?_
      rw [List.append_assoc, List.append_assoc]
      exact List.perm_append_comm.append_left kept
    · intro e member
      obtain ⟨call, made, inside, err⟩ := h.failed e member
      exact ⟨call, List.mem_append_left _ made, inside, err⟩
  · refine ⟨kept, lost ++ b.ledger.writer.batch, refused, accounted, ⟨new, ?_, entries⟩, ?_, ?_, h.recorded⟩
    · rw [unstored, split]
    · have moved := h.inserted.append_right b.ledger.writer.batch
      simp only [World.inserted, List.map_append, List.flatten_append, List.map_singleton,
        List.flatten_singleton]
      rwa [List.append_assoc] at moved
    · intro e member
      rcases List.mem_append.mp member with early | late
      · obtain ⟨call, made, inside, err⟩ := h.failed e early
        exact ⟨call, List.mem_append_left _ made, inside, err⟩
      · exact ⟨_, List.mem_append_right _ (List.mem_singleton.mpr rfl), late, failed⟩

theorem Explained.step {ev : Background} (h : b.Explained dropped old) (moved : b.step ev = some next) :
    next.Explained dropped old := by
  obtain ⟨kept, lost, refused, h⟩ := h
  obtain ⟨ledger, stepped, rfl⟩ := Option.map_eq_some_iff.mp moved
  cases ev with
  | copied copy => exact h.copied copy stepped
  | _ => exact ⟨kept, lost, refused, h.unasked stepped rfl nofun⟩

theorem Explained.advance (h : b.Explained dropped old) (ev : Background) :
    (b.advance ev).Explained dropped old := by
  unfold Books.advance
  cases moved : b.step ev with
  | none => exact h
  | some next => exact h.step moved

theorem Explained.meanwhile (h : b.Explained dropped old) (events : List Background) :
    (b.meanwhile events).Explained dropped old := by
  induction events generalizing b with
  | nil => exact h
  | cons ev events ih => exact ih (h.advance ev)

theorem Explained.record (h : b.Explained dropped old) (e : Entry) (blocked : Bool) :
    (b.record e blocked).Explained dropped old := by
  obtain ⟨kept, lost, refused, h⟩ := h
  have moved : b.ledger.step (.record e blocked) = some (b.ledger.record e blocked) := rfl
  have accounted := h.ledger.step moved
  unfold Books.record
  generalize b.ledger.record e blocked = ledger at moved accounted
  have added : (b.ledger.recorded ++ [e]).Perm (b.ledger.accepted ++ [e] ++ refused) := by
    refine (h.recorded.append_right [e]).trans ?_
    rw [List.append_assoc, List.append_assoc]
    exact List.perm_append_comm.append_left _
  cases World.stepped moved with
  | handed _ _ _ => exact ⟨kept, lost, refused, accounted, h.stored, h.inserted, h.failed, added⟩
  | buffered _ _ => exact ⟨kept, lost, refused, accounted, h.stored, h.inserted, h.failed, added⟩
  | lost _ _ =>
      refine ⟨kept, lost, refused ++ [e], accounted, h.stored, h.inserted, h.failed, ?_⟩
      have moved := h.recorded.append_right [e]
      rwa [List.append_assoc] at moved

theorem advance_recorded (b : Books) (ev : Background) :
    (b.advance ev).ledger.recorded = b.ledger.recorded := by
  unfold advance
  cases moved : b.step ev with
  | none => rfl
  | some next =>
      obtain ⟨ledger, stepped, rfl⟩ := Option.map_eq_some_iff.mp moved
      cases ev with
      | copied copy =>
          cases World.stepped stepped
          rfl
      | _ => exact (unasked stepped rfl nofun).2.1

/-- Nothing in the background records. -/
theorem meanwhile_recorded (b : Books) (events : List Background) :
    (b.meanwhile events).ledger.recorded = b.ledger.recorded := by
  induction events generalizing b with
  | nil => rfl
  | cons ev events ih => exact (ih _).trans (b.advance_recorded ev)

theorem record_recorded (b : Books) (e : Entry) (blocked : Bool) :
    (b.record e blocked).ledger.recorded = b.ledger.recorded ++ [e] := rfl

/-- The rows of a scope and a window are the older ones and some of those kept. -/
theorem Accounted.select (h : b.Accounted dropped old kept lost refused) (scope : Scope) (id : String)
    (w : Window) :
    ∃ counted : List Entry, counted.Sublist (own scope id kept) ∧
      Table.select b.table scope id w = Table.select old scope id w ++ counted.map Entry.stored := by
  obtain ⟨new, split, entries⟩ := h.stored
  have part : (Table.select new scope id w).Sublist (own scope id (kept.map Entry.stored)) := by
    rw [← entries]
    exact ((List.filter_sublist).map Row.entry).filter _
  rw [own_stored] at part
  obtain ⟨counted, sublist, same⟩ := List.sublist_map_iff.mp part
  refine ⟨counted, sublist, ?_⟩
  rw [← same, split]
  simp [Table.select, own]

/-- Over a window that has every row, they are all of those kept. -/
theorem Accounted.select_all (h : b.Accounted dropped old kept lost refused) (scope : Scope)
    (id : String) {w : Window} (every : ∀ row ∈ b.table, w.contains row.createdAt = true) :
    Table.select b.table scope id w =
      own scope id (old.map Row.entry) ++ (own scope id kept).map Entry.stored := by
  obtain ⟨new, split, entries⟩ := h.stored
  rw [Table.select, List.filter_eq_self.mpr every, split, List.map_append, entries,
    ← own_stored]
  exact List.filter_append _ _

end Books
end Gateway.Ledger
