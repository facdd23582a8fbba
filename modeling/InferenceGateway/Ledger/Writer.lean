import Mathlib

/-! The usage ledger's writer. Callers of Record, the goroutine of run and its inserter take
turns in any order; each step is one channel operation, one return of InsertBatch or the
cancellation by Close. -/
namespace Gateway.Ledger

structure Entry where
  requestID : String
  orgID : String
  teamID : String
  virtualKeyID : String
  provider : String := ""
  model : String
  promptTokens : Int64 := 0
  completionTokens : Int64 := 0
  tokensSaved : Int64 := 0
  costUSD : ℚ := 0
  cacheTier : String
  attempts : Int64 := 0
  statusCode : Int
  latencyMS : Int64
  deriving DecidableEq

/-- The tokens a row bills for. -/
def Entry.billed (e : Entry) : Int64 := e.promptTokens + e.completionTokens

/-- Where the goroutine stands: in its select, inside InsertBatch on the way back to the
select or to the return, in the drain loop, or past the close of `done`. -/
inductive Phase where
  | selecting
  | inserting (last : Bool)
  | draining
  | done
  deriving DecidableEq

structure Writer where
  bufferSize : Nat
  batchSize : Nat
  entries : List Entry := []
  batch : List Entry := []
  phase : Phase := .selecting
  cancelled : Bool := false
  deriving DecidableEq

namespace Writer

/-- A receiver blocked in the select takes an entry without a free slot in the buffer. -/
def waiting (w : Writer) : Bool := w.phase = .selecting && w.entries.isEmpty && !w.cancelled

/-- flush, up to the call of InsertBatch. -/
def flush (w : Writer) (last : Bool) : Writer :=
  if w.batch = [] then { w with phase := if last then .done else .selecting }
  else { w with phase := .inserting last }

def append (w : Writer) (e : Entry) : Writer := { w with batch := w.batch ++ [e] }

/-- The first case of the select, once it has received. -/
def take (w : Writer) (e : Entry) : Writer :=
  if w.batchSize ≤ (w.append e).batch.length then (w.append e).flush false else w.append e

/-- Record, and whether the channel took the entry. -/
def record (w : Writer) (e : Entry) (blocked : Bool) : Bool × Writer :=
  if blocked && w.waiting then (true, w.take e)
  else if w.entries.length < w.bufferSize then (true, { w with entries := w.entries ++ [e] })
  else (false, w)

def receive (w : Writer) : Option Writer :=
  match w.phase, w.entries with
  | .selecting, e :: rest => some ({ w with entries := rest }.take e)
  | _, _ => none

def tick (w : Writer) : Option Writer := if w.phase = .selecting then some (w.flush false) else none

def ctxDone (w : Writer) : Option Writer :=
  if w.phase = .selecting ∧ w.cancelled = true then some { w with phase := .draining } else none

def drain (w : Writer) : Option Writer :=
  match w.phase, w.entries with
  | .draining, e :: rest => some ({ w with entries := rest }.append e)
  | .draining, [] => some (w.flush true)
  | _, _ => none

/-- flush, from the return of InsertBatch on. -/
def resume (w : Writer) : Option Writer :=
  match w.phase with
  | .inserting last => some { w with batch := [], phase := if last then .done else .selecting }
  | _ => none

def cancel (w : Writer) : Writer := { w with cancelled := true }

/-- What Close may return after it has called cancel. -/
inductive CloseReturns (w : Writer) : Option String → Prop
  | finished : w.phase = .done → CloseReturns w none
  | ctxErr (err : String) : CloseReturns w (some err)

end Writer

structure Insert where
  entries : List Entry
  err : Option String
  deriving DecidableEq

/-- The writer, the counter and what has been asked of Record and of InsertBatch. -/
structure World where
  writer : Writer
  ledgerDroppedTotal : Nat
  recorded : List Entry := []
  accepted : List Entry := []
  inserts : List Insert := []
  deriving DecidableEq

inductive Event where
  | record (e : Entry) (blocked : Bool)
  | receive
  | tick
  | ctxDone
  | drain
  | inserted (err : Option String)
  | close
  deriving DecidableEq

def Event.isRecord : Event → Bool
  | .record _ _ => true
  | _ => false

namespace World

/-- A writer made by NewWriter, with the counter where earlier writers left it. -/
def start (bufferSize batchSize dropped : Nat) : World := ⟨{ bufferSize, batchSize }, dropped, [], [], []⟩

def record (w : World) (e : Entry) (blocked : Bool) : World :=
  let (taken, writer) := w.writer.record e blocked
  { w with
    writer
    recorded := w.recorded ++ [e]
    accepted := if taken then w.accepted ++ [e] else w.accepted
    ledgerDroppedTotal := if taken then w.ledgerDroppedTotal else w.ledgerDroppedTotal + 1 }

def inserted (w : World) (err : Option String) (writer : Writer) : World :=
  { w with writer, inserts := w.inserts ++ [⟨w.writer.batch, err⟩] }

def step (w : World) : Event → Option World
  | .record e blocked => some (w.record e blocked)
  | .receive => w.writer.receive.map fun writer => { w with writer }
  | .tick => w.writer.tick.map fun writer => { w with writer }
  | .ctxDone => w.writer.ctxDone.map fun writer => { w with writer }
  | .drain => w.writer.drain.map fun writer => { w with writer }
  | .inserted err => w.writer.resume.map (w.inserted err)
  | .close => some { w with writer := w.writer.cancel }

def run (w : World) : List Event → Option World
  | [] => some w
  | ev :: events => (w.step ev).bind fun next => run next events

/-- The rows of the calls of InsertBatch that succeeded. -/
def insertedRows (w : World) : Nat :=
  ((w.inserts.filter fun call => call.err.isNone).map fun call => call.entries.length).sum

end World

/-- Close is begun once, after the last Record. -/
def ClosedLast (events : List Event) : Prop :=
  ∃ live closing, events = live ++ .close :: closing ∧ .close ∉ live ∧ .close ∉ closing ∧
    ∀ ev ∈ closing, ev.isRecord = false

namespace Writer
variable {w next : Writer} {e : Entry}

/-- What the writer still has to insert, in order. -/
def backlog (w : Writer) : List Entry := w.batch ++ w.entries

/-- InsertBatch is never called with nothing. -/
def Loaded (w : Writer) : Prop := ∀ last, w.phase = .inserting last → w.batch ≠ []

/-- The drain, and what follows it, comes after the cancellation; done leaves nothing. -/
structure Ends (w : Writer) : Prop where
  cancelled : w.phase = .draining ∨ w.phase = .inserting true ∨ w.phase = .done →
    w.cancelled = true
  drained : w.phase = .inserting true ∨ w.phase = .done → w.entries = []
  empty : w.phase = .done → w.batch = []

@[simp] theorem flush_batch (last : Bool) : (w.flush last).batch = w.batch := by
  unfold flush
  split <;> rfl

@[simp] theorem flush_entries (last : Bool) : (w.flush last).entries = w.entries := by
  unfold flush
  split <;> rfl

@[simp] theorem flush_cancelled (last : Bool) : (w.flush last).cancelled = w.cancelled := by
  unfold flush
  split <;> rfl

theorem flush_loaded (last : Bool) : (w.flush last).Loaded := by
  intro again inside
  unfold flush at inside
  split at inside
  · cases last <;> cases inside
  · rename_i some_entry
    rw [flush_batch]
    exact some_entry

theorem flush_false_phase :
    (w.flush false).phase = .selecting ∨ (w.flush false).phase = .inserting false := by
  unfold flush
  split
  · exact .inl rfl
  · exact .inr rfl

theorem flush_true_ends (cancelled : w.cancelled = true) (drained : w.entries = []) :
    (w.flush true).Ends := by
  refine ⟨fun _ => ?_, fun _ => ?_, fun finished => ?_⟩
  · rw [flush_cancelled, cancelled]
  · rw [flush_entries, drained]
  · unfold flush at finished
    split at finished
    · rename_i nothing
      rw [flush_batch, nothing]
    · cases finished

theorem ends_of_phase (phase : w.phase = .selecting ∨ w.phase = .inserting false) : w.Ends := by
  refine ⟨?_, ?_, ?_⟩ <;> rcases phase with here | here <;> simp [here]

theorem take_backlog : (w.take e).backlog = w.batch ++ e :: w.entries := by
  unfold take backlog
  split <;> simp [append]

theorem take_phase (selecting : w.phase = .selecting) :
    (w.take e).phase = .selecting ∨ (w.take e).phase = .inserting false := by
  unfold take
  split
  · exact flush_false_phase
  · exact .inl selecting

theorem take_loaded (selecting : w.phase = .selecting) : (w.take e).Loaded := by
  unfold take
  split
  · exact flush_loaded false
  · intro last inside
    change w.phase = _ at inside
    rw [selecting] at inside
    cases inside

theorem waiting_cases (h : w.waiting = true) :
    w.phase = .selecting ∧ w.entries = [] ∧ w.cancelled = false := by
  simpa [waiting, and_assoc] using h

theorem record_cases (w : Writer) (e : Entry) (blocked : Bool) :
    (w.waiting = true ∧ w.record e blocked = (true, w.take e)) ∨
      w.record e blocked = (true, { w with entries := w.entries ++ [e] }) ∨
      w.record e blocked = (false, w) := by
  unfold record
  split
  · rename_i taken
    simp only [Bool.and_eq_true] at taken
    exact .inl ⟨taken.2, rfl⟩
  · split
    · exact .inr (.inl rfl)
    · exact .inr (.inr rfl)

theorem receive_cases (h : w.receive = some next) :
    ∃ e rest, w.phase = .selecting ∧ w.entries = e :: rest ∧
      next = { w with entries := rest }.take e := by
  unfold receive at h
  split at h
  · rename_i e rest selecting entries
    exact ⟨e, rest, selecting, entries, (Option.some.inj h).symm⟩
  · cases h

theorem tick_cases (h : w.tick = some next) : w.phase = .selecting ∧ next = w.flush false := by
  unfold tick at h
  split at h
  · rename_i selecting
    exact ⟨selecting, (Option.some.inj h).symm⟩
  · cases h

theorem ctxDone_cases (h : w.ctxDone = some next) :
    w.phase = .selecting ∧ w.cancelled = true ∧ next = { w with phase := .draining } := by
  unfold ctxDone at h
  split at h
  · rename_i ready
    exact ⟨ready.1, ready.2, (Option.some.inj h).symm⟩
  · cases h

theorem drain_cases (h : w.drain = some next) :
    w.phase = .draining ∧ ((∃ e rest, w.entries = e :: rest ∧
        next = { w with entries := rest }.append e) ∨ (w.entries = [] ∧ next = w.flush true)) := by
  unfold drain at h
  split at h
  · rename_i e rest draining entries
    exact ⟨draining, .inl ⟨e, rest, entries, (Option.some.inj h).symm⟩⟩
  · rename_i draining entries
    exact ⟨draining, .inr ⟨entries, (Option.some.inj h).symm⟩⟩
  · cases h

theorem resume_cases (h : w.resume = some next) :
    ∃ last, w.phase = .inserting last ∧
      next = { w with batch := [], phase := if last then .done else .selecting } := by
  unfold resume at h
  split at h
  · rename_i last inside
    exact ⟨last, inside, (Option.some.inj h).symm⟩
  · cases h

theorem take_cancelled : (w.take e).cancelled = w.cancelled := by
  unfold take
  split
  · exact flush_cancelled false
  · rfl

end Writer

namespace World
variable {w next : World} {dropped : Nat}

/-- What each event can come to. -/
inductive Stepped (w : World) : Event → World → Prop
  | handed (e : Entry) (blocked : Bool) : w.writer.waiting = true →
      Stepped w (.record e blocked)
        { w with
          writer := w.writer.take e
          recorded := w.recorded ++ [e]
          accepted := w.accepted ++ [e] }
  | buffered (e : Entry) (blocked : Bool) :
      Stepped w (.record e blocked)
        { w with
          writer := { w.writer with entries := w.writer.entries ++ [e] }
          recorded := w.recorded ++ [e]
          accepted := w.accepted ++ [e] }
  | lost (e : Entry) (blocked : Bool) :
      Stepped w (.record e blocked)
        { w with recorded := w.recorded ++ [e], ledgerDroppedTotal := w.ledgerDroppedTotal + 1 }
  | received {e : Entry} {rest : List Entry} : w.writer.phase = .selecting →
      w.writer.entries = e :: rest →
      Stepped w .receive { w with writer := { w.writer with entries := rest }.take e }
  | ticked : w.writer.phase = .selecting → Stepped w .tick { w with writer := w.writer.flush false }
  | stopped : w.writer.phase = .selecting → w.writer.cancelled = true →
      Stepped w .ctxDone { w with writer := { w.writer with phase := .draining } }
  | drained {e : Entry} {rest : List Entry} : w.writer.phase = .draining →
      w.writer.entries = e :: rest →
      Stepped w .drain { w with writer := { w.writer with entries := rest }.append e }
  | emptied : w.writer.phase = .draining → w.writer.entries = [] →
      Stepped w .drain { w with writer := w.writer.flush true }
  | returned {last : Bool} (err : Option String) : w.writer.phase = .inserting last →
      Stepped w (.inserted err) (w.inserted err
        { w.writer with batch := [], phase := if last then .done else .selecting })
  | closed : Stepped w .close { w with writer := w.writer.cancel }

theorem stepped {ev : Event} (moved : w.step ev = some next) : Stepped w ev next := by
  cases ev with
  | record e blocked =>
      cases moved
      unfold World.record
      rcases w.writer.record_cases e blocked with ⟨ready, same⟩ | same | same
      · simp only [same, if_true]
        exact .handed e blocked ready
      · simp only [same, if_true]
        exact .buffered e blocked
      · simp only [same, Bool.false_eq_true, if_false]
        exact .lost e blocked
  | receive =>
      obtain ⟨writer, received, rfl⟩ := Option.map_eq_some_iff.mp moved
      obtain ⟨e, rest, selecting, entries, rfl⟩ := Writer.receive_cases received
      exact .received selecting entries
  | tick =>
      obtain ⟨writer, ticked, rfl⟩ := Option.map_eq_some_iff.mp moved
      obtain ⟨selecting, rfl⟩ := Writer.tick_cases ticked
      exact .ticked selecting
  | ctxDone =>
      obtain ⟨writer, seen, rfl⟩ := Option.map_eq_some_iff.mp moved
      obtain ⟨selecting, cancelled, rfl⟩ := Writer.ctxDone_cases seen
      exact .stopped selecting cancelled
  | drain =>
      obtain ⟨writer, drained, rfl⟩ := Option.map_eq_some_iff.mp moved
      obtain ⟨draining, ⟨e, rest, entries, rfl⟩ | ⟨entries, rfl⟩⟩ := Writer.drain_cases drained
      · exact .drained draining entries
      · exact .emptied draining entries
  | inserted err =>
      obtain ⟨writer, resumed, rfl⟩ := Option.map_eq_some_iff.mp moved
      obtain ⟨last, inside, rfl⟩ := Writer.resume_cases resumed
      exact .returned err inside
  | close =>
      cases moved
      exact .closed

/-- What has been accepted is inserted, in the batch or in the buffer, in this order. -/
structure Accounted (w : World) (dropped : Nat) : Prop where
  order : w.accepted = (w.inserts.map Insert.entries).flatten ++ w.writer.backlog
  nonempty : ∀ call ∈ w.inserts, call.entries ≠ []
  loaded : w.writer.Loaded
  counted : w.accepted.length + w.ledgerDroppedTotal = w.recorded.length + dropped

theorem start_accounted (bufferSize batchSize dropped : Nat) :
    (start bufferSize batchSize dropped).Accounted dropped :=
  ⟨rfl, nofun, nofun, rfl⟩

/-- A step of the goroutine alone moves entries on without touching their order. -/
theorem Accounted.writer (h : w.Accounted dropped) {writer : Writer}
    (kept : writer.backlog = w.writer.backlog) (loaded : writer.Loaded) :
    { w with writer }.Accounted dropped where
  order := by
    rw [kept]
    exact h.order
  nonempty := h.nonempty
  loaded := loaded
  counted := h.counted

theorem Accounted.accept (h : w.Accounted dropped) {e : Entry} {writer : Writer}
    (added : writer.backlog = w.writer.backlog ++ [e]) (loaded : writer.Loaded) :
    { w with writer, recorded := w.recorded ++ [e], accepted := w.accepted ++ [e] }.Accounted
      dropped where
  order := by
    rw [added, h.order, List.append_assoc]
  nonempty := h.nonempty
  loaded := loaded
  counted := by
    have counted := h.counted
    simp only [List.length_append]
    omega

theorem Accounted.inserted (h : w.Accounted dropped) {err : Option String} {last : Bool}
    (inside : w.writer.phase = .inserting last) :
    (w.inserted err { w.writer with batch := [], phase := if last then .done else .selecting }).Accounted
      dropped := by
  refine ⟨?_, ?_, ?_, h.counted⟩
  · simp only [World.inserted, Writer.backlog, List.map_append, List.flatten_append,
      List.map_singleton, List.flatten_singleton, List.nil_append, List.append_assoc]
    exact h.order
  · intro call member
    rcases List.mem_append.mp member with old | new
    · exact h.nonempty call old
    · rw [List.mem_singleton.mp new]
      exact h.loaded last inside
  · intro again inside
    cases last <;> cases inside

theorem Accounted.step (h : w.Accounted dropped) {ev : Event} (moved : w.step ev = some next) :
    next.Accounted dropped := by
  cases stepped moved with
  | handed e blocked ready =>
      obtain ⟨selecting, entries, -⟩ := Writer.waiting_cases ready
      refine h.accept ?_ (Writer.take_loaded selecting)
      rw [Writer.take_backlog, Writer.backlog, entries, List.append_nil]
  | buffered e blocked =>
      refine h.accept ?_ h.loaded
      simp only [Writer.backlog, List.append_assoc]
  | lost e blocked =>
      refine ⟨h.order, h.nonempty, h.loaded, ?_⟩
      have counted := h.counted
      simp only [List.length_append, List.length_singleton]
      omega
  | received selecting entries =>
      refine h.writer ?_ (Writer.take_loaded selecting)
      rw [Writer.take_backlog, Writer.backlog, entries]
  | ticked _ =>
      refine h.writer ?_ (Writer.flush_loaded false)
      simp only [Writer.backlog, Writer.flush_batch, Writer.flush_entries]
  | stopped _ _ => exact h.writer rfl nofun
  | drained draining entries =>
      refine h.writer ?_ ?_
      · simp only [Writer.backlog, Writer.append, entries, List.append_assoc, List.singleton_append]
      · intro last inside
        cases draining.symm.trans inside
  | emptied _ _ =>
      refine h.writer ?_ (Writer.flush_loaded true)
      simp only [Writer.backlog, Writer.flush_batch, Writer.flush_entries]
  | returned err inside => exact h.inserted inside
  | closed => exact h.writer rfl h.loaded

theorem Accounted.run {events : List Event} (h : w.Accounted dropped)
    (moved : w.run events = some next) : next.Accounted dropped := by
  induction events generalizing w with
  | nil =>
      cases moved
      exact h
  | cons ev events ih =>
      obtain ⟨middle, first, rest⟩ := Option.bind_eq_some_iff.mp moved
      exact ih (h.step first) rest

theorem run_append_of {middle : World} {first second : List Event}
    (reached : w.run first = some middle) (later : middle.run second = some next) :
    w.run (first ++ second) = some next := by
  induction first generalizing w with
  | nil =>
      cases reached
      exact later
  | cons ev first ih =>
      obtain ⟨one, moved, rest⟩ := Option.bind_eq_some_iff.mp reached
      simp only [List.cons_append, World.run, moved, Option.bind_some]
      exact ih rest

theorem run_append {first second : List Event} (h : w.run (first ++ second) = some next) :
    ∃ middle, w.run first = some middle ∧ middle.run second = some next := by
  induction first generalizing w with
  | nil => exact ⟨w, rfl, h⟩
  | cons ev first ih =>
      obtain ⟨one, moved, rest⟩ := Option.bind_eq_some_iff.mp h
      obtain ⟨middle, reached, later⟩ := ih rest
      refine ⟨middle, ?_, later⟩
      simp only [World.run, moved, Option.bind_some, reached]

/-- Before the cancellation the goroutine is not past its select. -/
theorem working_of_live (h : w.writer.Ends) (live : w.writer.cancelled = false) :
    w.writer.phase = .selecting ∨ w.writer.phase = .inserting false := by
  cases phase : w.writer.phase with
  | selecting => exact .inl rfl
  | inserting last =>
      cases last with
      | false => exact .inr rfl
      | true => exact absurd (h.cancelled (.inr (.inl phase))) (by simp [live])
  | draining => exact absurd (h.cancelled (.inl phase)) (by simp [live])
  | done => exact absurd (h.cancelled (.inr (.inr phase))) (by simp [live])

theorem step_ends (h : w.writer.Ends) {ev : Event}
    (live : ev.isRecord = true → w.writer.cancelled = false) (moved : w.step ev = some next) :
    next.writer.Ends := by
  cases stepped moved with
  | handed e blocked ready =>
      exact Writer.ends_of_phase (Writer.take_phase (Writer.waiting_cases ready).1)
  | buffered e blocked =>
      have working := working_of_live h (live rfl)
      exact Writer.ends_of_phase working
  | lost e blocked => exact h
  | received selecting _ => exact Writer.ends_of_phase (Writer.take_phase selecting)
  | ticked _ => exact Writer.ends_of_phase Writer.flush_false_phase
  | stopped _ cancelled => exact ⟨fun _ => cancelled, by simp, nofun⟩
  | drained draining _ =>
      refine ⟨fun _ => h.cancelled (.inl draining), fun late => ?_, fun finished => ?_⟩
      · simp [Writer.append, draining] at late
      · simp [Writer.append, draining] at finished
  | emptied draining entries => exact Writer.flush_true_ends (h.cancelled (.inl draining)) entries
  | @returned last err inside =>
      cases last with
      | false => exact Writer.ends_of_phase (.inl rfl)
      | true =>
          exact ⟨fun _ => h.cancelled (.inr (.inl inside)), fun _ => h.drained (.inl inside),
            fun _ => rfl⟩
  | closed => exact ⟨fun _ => rfl, h.drained, h.empty⟩

/-- Nothing but Close cancels. -/
theorem step_cancelled {ev : Event} (moved : w.step ev = some next) (other : ev ≠ .close) :
    next.writer.cancelled = w.writer.cancelled := by
  cases stepped moved with
  | handed e blocked _ => exact Writer.take_cancelled
  | received _ _ => exact Writer.take_cancelled
  | ticked _ => exact Writer.flush_cancelled false
  | emptied _ _ => exact Writer.flush_cancelled true
  | closed => exact absurd rfl other
  | _ => rfl

theorem run_ends {events : List Event} (h : w.writer.Ends) (open_ : .close ∉ events)
    (live : w.writer.cancelled = false ∨ ∀ ev ∈ events, ev.isRecord = false)
    (moved : w.run events = some next) :
    next.writer.Ends ∧ next.writer.cancelled = w.writer.cancelled := by
  induction events generalizing w with
  | nil =>
      cases moved
      exact ⟨h, rfl⟩
  | cons ev events ih =>
      obtain ⟨middle, first, rest⟩ := Option.bind_eq_some_iff.mp moved
      rw [List.mem_cons, not_or] at open_
      have same := step_cancelled first (Ne.symm open_.1)
      have ends : middle.writer.Ends := by
        refine step_ends h (fun isRecord => ?_) first
        rcases live with fresh | quiet
        · exact fresh
        · rw [quiet ev List.mem_cons_self] at isRecord
          cases isRecord
      rw [← same]
      refine ih ends open_.2 ?_ rest
      rcases live with fresh | quiet
      · exact .inl (same.trans fresh)
      · exact .inr fun later member => quiet later (List.mem_cons_of_mem ev member)

/-- The drain loop ends after as many rounds as there are entries, and one. -/
theorem drains (draining : w.writer.phase = .draining) :
    ∃ next, w.run (List.replicate (w.writer.entries.length + 1) .drain) = some next ∧
      (next.writer.phase = .done ∨ next.writer.phase = .inserting true) := by
  induction entries : w.writer.entries generalizing w with
  | nil =>
      refine ⟨{ w with writer := w.writer.flush true }, ?_, ?_⟩
      · simp [World.run, step, Writer.drain, draining, entries]
      · unfold Writer.flush
        split
        · exact .inl rfl
        · exact .inr rfl
  | cons e rest ih =>
      let later : World := { w with writer := { w.writer with entries := rest }.append e }
      obtain ⟨next, reached, ended⟩ := @ih later draining rfl
      refine ⟨next, ?_, ended⟩
      have first : w.step .drain = some later := by
        simp [step, Writer.drain, draining, entries, later]
      rw [List.length_cons, List.replicate_succ]
      simp only [World.run, first, Option.bind_some]
      exact reached

/-- Some continuation lets Close return nil. -/
def Closes (w : World) : Prop :=
  ∃ events next, w.run events = some next ∧ next.writer.CloseReturns none

theorem Closes.of_run {events : List Event} (h : next.Closes) (moved : w.run events = some next) :
    w.Closes := by
  obtain ⟨later, last, rest, closed⟩ := h
  exact ⟨events ++ later, last, run_append_of moved rest, closed⟩

theorem Closes.of_step {ev : Event} (h : next.Closes) (moved : w.step ev = some next) :
    w.Closes := by
  apply h.of_run
  rw [show w.run [ev] = (w.step ev).bind fun next => next.run [] from rfl, moved]
  rfl

theorem closes_of_late (late : w.writer.phase = .done ∨ w.writer.phase = .inserting true) :
    w.Closes := by
  rcases late with done | inserting
  · exact ⟨[], w, rfl, .finished done⟩
  · let back := w.inserted none { w.writer with batch := [], phase := .done }
    have finished : back.Closes := ⟨[], back, rfl, .finished rfl⟩
    have resumed : w.step (.inserted none) = some back := by
      simp [step, Writer.resume, inserting, back]
    exact finished.of_step resumed

theorem closes_of_draining (draining : w.writer.phase = .draining) : w.Closes := by
  obtain ⟨middle, drained, late⟩ := drains draining
  exact (closes_of_late late).of_run drained

theorem closes_of_selecting (selecting : w.writer.phase = .selecting)
    (cancelled : w.writer.cancelled = true) : w.Closes := by
  let draining : World := { w with writer := { w.writer with phase := .draining } }
  have seen : w.step .ctxDone = some draining := by
    simp [step, Writer.ctxDone, selecting, cancelled, draining]
  exact (closes_of_draining (w := draining) rfl).of_step seen

/-- A cancelled writer can come to its end from wherever it stands. -/
theorem closes_of_cancelled (cancelled : w.writer.cancelled = true) : w.Closes := by
  cases phase : w.writer.phase with
  | selecting => exact closes_of_selecting phase cancelled
  | draining => exact closes_of_draining phase
  | done => exact closes_of_late (.inl phase)
  | inserting last =>
      cases last with
      | true => exact closes_of_late (.inr phase)
      | false =>
          let back := w.inserted none { w.writer with batch := [], phase := .selecting }
          have resumed : w.step (.inserted none) = some back := by
            simp [step, Writer.resume, phase, back]
          exact (closes_of_selecting (w := back) rfl cancelled).of_step resumed

/-- When Close returns nil, everything accepted has been handed to InsertBatch. -/
theorem closed_backlog {bufferSize batchSize dropped : Nat} {events : List Event}
    (last : ClosedLast events) (moved : (start bufferSize batchSize dropped).run events = some w)
    (returned : w.writer.CloseReturns none) : w.writer.backlog = [] := by
  obtain ⟨live, closing, rfl, open_, once, quiet⟩ := last
  obtain ⟨before, first, rest⟩ := run_append moved
  obtain ⟨after, closed, rest⟩ := Option.bind_eq_some_iff.mp rest
  have begun := run_ends (Writer.ends_of_phase (.inl rfl)) open_ (.inl rfl) first
  have ended := run_ends (step_ends begun.1 (fun record => by cases record) closed) once (.inr quiet) rest
  cases returned with
  | finished done =>
      rw [Writer.backlog, ended.1.empty done, ended.1.drained (.inr done), List.append_nil]

/-- The calls of InsertBatch pass on the accepted entries, each once and in order, and the
counter has the rest. -/
theorem delivers_accepted_in_order {bufferSize batchSize dropped : Nat} {events : List Event}
    (last : ClosedLast events) (moved : (start bufferSize batchSize dropped).run events = some w)
    (returned : w.writer.CloseReturns none) :
    (w.inserts.map Insert.entries).flatten = w.accepted ∧
      (∀ call ∈ w.inserts, call.entries ≠ []) ∧
      w.accepted.length + w.ledgerDroppedTotal = w.recorded.length + dropped := by
  have accounted := (start_accounted bufferSize batchSize dropped).run moved
  refine ⟨?_, accounted.nonempty, accounted.counted⟩
  rw [accounted.order, closed_backlog last moved returned, List.append_nil]

def row (requestID : String) : Entry :=
  { requestID, orgID := "o1", teamID := "t1", virtualKeyID := "k1", model := "chat"
    cacheTier := "none", statusCode := 200, latencyMS := 5 }

/-- Four records, one of them into a full buffer, two inserts on a tick, the second with this
result, and one of the row that Close finds in the buffer. -/
def overlapping (err : Option String) : List Event :=
  [.record (row "r1") false, .receive, .tick, .inserted none, .record (row "r2") false,
    .record (row "r3") false, .receive, .record (row "r4") false, .tick, .inserted err, .close,
    .ctxDone, .drain, .drain, .inserted none]

theorem overlapping_closedLast (err : Option String) : ClosedLast (overlapping err) := by
  refine ⟨[.record (row "r1") false, .receive, .tick, .inserted none, .record (row "r2") false,
    .record (row "r3") false, .receive, .record (row "r4") false, .tick, .inserted err],
    [.ctxDone, .drain, .drain, .inserted none], rfl, ?_, ?_, ?_⟩ <;> simp [Event.isRecord]

def settled (err : Option String) : World where
  writer := { bufferSize := 1, batchSize := 2, phase := .done, cancelled := true }
  ledgerDroppedTotal := 8
  recorded := [row "r1", row "r2", row "r3", row "r4"]
  accepted := [row "r1", row "r2", row "r4"]
  inserts := [⟨[row "r1"], none⟩, ⟨[row "r2"], err⟩, ⟨[row "r4"], none⟩]

theorem overlapping_settles (err : Option String) :
    (start 1 2 7).run (overlapping err) = some (settled err) := rfl

theorem overlapping_delivered :
    ((settled (some "down")).inserts.map Insert.entries).flatten =
        [row "r1", row "r2", row "r4"] ∧
      (∀ call ∈ (settled (some "down")).inserts, call.entries ≠ []) ∧ 3 + 8 = 4 + 7 :=
  delivers_accepted_in_order (overlapping_closedLast _) (overlapping_settles _) (.finished rfl)

/-- Rows of failed calls are missing from those of the successful ones. -/
theorem insertedRows_add_lost (w : World) : w.insertedRows +
      ((w.inserts.filter fun call => call.err.isSome).map fun call => call.entries.length).sum =
    (w.inserts.map Insert.entries).flatten.length := by
  unfold insertedRows
  induction w.inserts with
  | nil => rfl
  | cons call calls ih =>
      rw [List.map_cons, List.flatten_cons, List.length_append, ← ih]
      cases failed : call.err with
      | none =>
          simp only [List.filter_cons, failed, Option.isNone_none, Option.isSome_none, if_true,
            Bool.false_eq_true, if_false, List.map_cons, List.sum_cons]
          omega
      | some err =>
          simp only [List.filter_cons, failed, Option.isNone_some, Option.isSome_some, if_true,
            Bool.false_eq_true, if_false, List.map_cons, List.sum_cons]
          omega

theorem lost_eq_zero_iff (nonempty : ∀ call ∈ w.inserts, call.entries ≠ []) :
    ((w.inserts.filter fun call => call.err.isSome).map fun call => call.entries.length).sum = 0 ↔
      ∀ call ∈ w.inserts, call.err = none := by
  rw [List.sum_eq_zero_iff]
  constructor
  · intro zero call member
    rw [← Option.not_isSome_iff_eq_none]
    intro failed
    have length := zero _ (List.mem_map_of_mem (List.mem_filter.mpr ⟨member, failed⟩))
    exact nonempty call member (List.eq_nil_of_length_eq_zero length)
  · intro fine length member
    obtain ⟨call, failed, rfl⟩ := List.mem_map.mp member
    obtain ⟨listed, isSome⟩ := List.mem_filter.mp failed
    rw [fine call listed] at isSome
    cases isSome

/-- Every Record is a row of a successful insert or counted as dropped exactly if no call of
InsertBatch failed. -/
theorem records_accounted_iff {bufferSize batchSize dropped : Nat} {events : List Event}
    (last : ClosedLast events) (moved : (start bufferSize batchSize dropped).run events = some w)
    (returned : w.writer.CloseReturns none) :
    w.recorded.length + dropped = w.insertedRows + w.ledgerDroppedTotal ↔
      ∀ call ∈ w.inserts, call.err = none := by
  have accounted := (start_accounted bufferSize batchSize dropped).run moved
  have order := accounted.order
  rw [closed_backlog last moved returned, List.append_nil] at order
  have rows := w.insertedRows_add_lost
  rw [← order] at rows
  have counted := accounted.counted
  rw [← lost_eq_zero_iff accounted.nonempty]
  omega

theorem overlapping_accounted :
    (settled none).recorded.length + 7 =
      (settled none).insertedRows + (settled none).ledgerDroppedTotal :=
  (records_accounted_iff (overlapping_closedLast none) (overlapping_settles none)
    (.finished rfl)).mpr (by decide)

/-- The row of the failed insert is neither inserted nor counted. -/
theorem failed_insert_uncounted :
    ClosedLast (overlapping (some "down")) ∧
      (start 1 2 7).run (overlapping (some "down")) = some (settled (some "down")) ∧
      (settled (some "down")).writer.CloseReturns none ∧
      (settled (some "down")).recorded.length + 7 ≠
        (settled (some "down")).insertedRows + (settled (some "down")).ledgerDroppedTotal :=
  ⟨overlapping_closedLast _, overlapping_settles _, .finished rfl, by decide⟩

end World
end Gateway.Ledger
