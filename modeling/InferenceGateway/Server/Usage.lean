import InferenceGateway.Ledger.Books
import InferenceGateway.Server.Billing
import InferenceGateway.Server.Ownership

/-! The usage reports of the admin API, over a table that chat requests fill through the
ledger's writer. Requests, the writer's goroutine and its inserts are interleaved in any
order; a report counts only requests of the tenant it is about, each at most once, and what
it misses is accounted for. -/
namespace Gateway.Server
open Gateway.Ledger (Entry Table Window UsageAggregate Books Background scopeColumn validScope aggregate
  summarize)
open Gateway.RateLimit (Fate)
open Interaction
open Interaction.Program hiding pure perform

/-- The parameters as they stand in the query, empty if absent. -/
structure UsageQuery where
  scope : String
  id : String
  since : String
  till : String

/-- uuid.Parse, time.Parse of RFC 3339 in nanoseconds, and the test behind the verb for
quoting. -/
structure UsageLib where
  parseUUID : String → Option String
  parseTime : String → Option ℤ
  isPrint : Char → Bool

inductive UsageOp where
  | now
  | aggregate (scope id : String) (w : Window)

@[reducible] def UsageOp.Reply : UsageOp → Type
  | .now => ℤ
  | .aggregate _ _ _ => Except String UsageAggregate

abbrev UsageM := Program UsageOp UsageOp.Reply

abbrev askUsage (o : UsageOp) : UsageM o.Reply := Program.perform o

structure UsageResponse where
  scope : String
  id : String
  window : Window
  usage : UsageAggregate
  deriving DecidableEq

inductive UsageAnswer where
  | refused (status : Int) (message : String)
  | reported (response : UsageResponse)
  deriving DecidableEq

/-- A time parameter, or its default. -/
def UsageLib.timeOr (lib : UsageLib) (raw : String) (default : ℤ) : Option ℤ :=
  if raw = "" then some default else lib.parseTime raw

def day : ℤ := 86400000000000

/-- The window a query asks for at a time, or what is wrong with it. -/
def UsageLib.window (lib : UsageLib) (q : UsageQuery) (now : ℤ) : Except String Window :=
  match lib.timeOr q.till now with
  | none => .error "until must be RFC3339"
  | some till =>
      match lib.timeOr q.since (till - day) with
      | none => .error "since must be RFC3339"
      | some since => if since < till then .ok ⟨since, till⟩ else .error "since must be before until"

def handleUsage (usage : Bool) (lib : UsageLib) (q : UsageQuery) : UsageM UsageAnswer :=
  if !usage then
    pure (.refused 503 "usage aggregation requires Postgres, which is not configured")
  else if !validScope q.scope then
    pure (.refused 400 ("scope must be one of org, team, key (got " ++
      Config.quote lib.isPrint q.scope ++ ")"))
  else
    match lib.parseUUID q.id with
    | none => pure (.refused 400 "id must be a valid UUID")
    | some id => do
        let now : ℤ ← askUsage .now
        match lib.window q now with
        | .error message => pure (.refused 400 message)
        | .ok w => do
            let usage : Except String UsageAggregate ← askUsage (.aggregate q.scope id w)
            match usage with
            | .error err => pure (.refused 500 err)
            | .ok usage => pure (.reported ⟨q.scope, id, w, usage⟩)

def usageReply (isPrint : Char → Bool) (now : ℤ) (fate : Fate) (table : Table) :
    (op : UsageOp) → op.Reply
  | .now => now
  | .aggregate scope id w => aggregate isPrint fate table scope id w

/-- What a query gets at a time from a table, over a database call with this fate. -/
def report (lib : UsageLib) (q : UsageQuery) (now : ℤ) (fate : Fate) (table : Table) : UsageAnswer :=
  (exec (fun _ => usageReply lib.isPrint now fate table) (handleUsage true lib q) []).2

/-- The response answers the query out of the table. -/
structure UsageResponse.Answers (response : UsageResponse) (lib : UsageLib) (q : UsageQuery) (now : ℤ)
    (table : Table) (column : Ledger.Scope) : Prop where
  scope : scopeColumn q.scope = some column
  id : lib.parseUUID q.id = some response.id
  window : lib.window q now = .ok response.window
  usage : response.usage = summarize (Table.select table column response.id response.window)

theorem handleUsage_given (lib : UsageLib) (q : UsageQuery) (now : ℤ) (fate : Fate) (table : Table)
    (usage : Bool) :
    Given (fun ev => ev.2 = usageReply lib.isPrint now fate table ev.1)
      (fun answer => ∀ response, answer = .reported response →
        ∃ column, response.Answers lib q now table column) (handleUsage usage lib q) := by
  unfold handleUsage
  split
  · nofun
  · split
    · nofun
    · cases parsed : lib.parseUUID q.id with
      | none => nofun
      | some id =>
          refine Given.perform_bind ?_
          intro time clock
          rw [show time = now from clock]
          cases wanted : lib.window q now with
          | error message => nofun
          | ok w =>
              refine Given.perform_bind ?_
              intro usage answer
              rw [show usage = aggregate lib.isPrint fate table q.scope id w from answer]
              cases found : aggregate lib.isPrint fate table q.scope id w with
              | error err => nofun
              | ok usage =>
                  rintro response ⟨⟩
                  obtain ⟨column, known, same⟩ := Ledger.aggregate_ok found
                  exact ⟨column, known, parsed, wanted, same⟩

theorem report_answers {lib : UsageLib} {q : UsageQuery} {now : ℤ} {fate : Fate} {table : Table}
    {response : UsageResponse} (h : report lib q now fate table = .reported response) :
    ∃ column, response.Answers lib q now table column :=
  (handleUsage_given lib q now fate table true).exec (fun _ _ => rfl) [] response h

/-- What a step brings with it: what happened in the background since the last one, whether
the goroutine waits in its receive, and the answers to operations other than Record. -/
structure Shift where
  events : List Background
  blocked : Bool
  answer : (op : Op) → op.Reply

def keepBooks (b : Books) (shift : Shift) : (op : Op) → op.Reply × Books
  | .record entry => ((), (b.meanwhile shift.events).record entry shift.blocked)
  | op => (shift.answer op, b.meanwhile shift.events)

abbrev BookPool := RecordPool Op Op.Reply Ended Books Unit

/-- Any number of chat requests over one ledger. -/
def bookkeeping (deps : ChatDeps) :
    System Op Op.Reply (List (Unit × Event Op Op.Reply)) Ended Books Request Shift :=
  .recording (handleChatCompletions deps) keepBooks fun _ => ()

/-- The entries a request has recorded. -/
def filedBy (past : List (Unit × Event Op Op.Reply)) : List Entry := records (past.map Prod.snd)

def filed (pool : BookPool) : List Entry := pool.gather filedBy

theorem filedBy_concat (past : List (Unit × Event Op Op.Reply)) (ev : Unit × Event Op Op.Reply) :
    filedBy (past ++ [ev]) = filedBy past ++ (recording ev.2).toList := by
  cases recorded : recording ev.2 <;> simp [filedBy, records, recorded]

theorem keepBooks_recorded (b : Books) (shift : Shift) (op : Op) :
    (keepBooks b shift op).2.ledger.recorded =
      b.ledger.recorded ++ (recording ⟨op, (keepBooks b shift op).1⟩).toList := by
  cases op with
  | record entry =>
      simp only [keepBooks, Books.record_recorded, Books.meanwhile_recorded, recording, Option.toList]
  | _ => simp [keepBooks, Books.meanwhile_recorded, recording]

theorem keepBooks_explained {b : Books} {dropped : Nat} {old : Table} (h : b.Explained dropped old)
    (shift : Shift) (op : Op) : (keepBooks b shift op).2.Explained dropped old := by
  cases op with
  | record entry => exact (h.meanwhile _).record _ _
  | _ => exact h.meanwhile _

/-- The books add up, and their entries are those the requests recorded. -/
structure Kept (deps : ChatDeps) (dropped : Nat) (old : Table) (pool : BookPool) : Prop where
  traced : Traced (handleChatCompletions deps) pool
  explained : pool.shared.Explained dropped old
  recorded : pool.shared.ledger.recorded.Perm (filed pool)

section Bookkeeping
variable {deps : ChatDeps} {dropped : Nat} {old : Table} {pool next : BookPool}
  {move : Move Request Shift}

theorem Kept.step (h : Kept deps dropped old pool) (moved : (bookkeeping deps).step pool move = some next) :
    Kept deps dropped old next := by
  have traced := h.traced.step moved
  obtain ⟨r, rfl⟩ | ⟨i, shift, op, continue_, past, found, rfl⟩ := recording_cases moved
  · refine ⟨traced, h.explained, ?_⟩
    have same : filed { pool with processes := pool.processes ++ [⟨handleChatCompletions deps r, []⟩] } =
        filed pool := by
      simp [filed, Pool.gather, filedBy, records]
    rw [same]
    exact h.recorded
  · refine ⟨traced, keepBooks_explained h.explained shift op, ?_⟩
    rw [keepBooks_recorded]
    refine (h.recorded.append_right _).trans ?_
    exact (Pool.gather_act filedBy found _ (filedBy_concat past _)).symm

theorem kept_of_reaches {bufferSize batchSize : Nat}
    (reached : (bookkeeping deps).Reaches (fun _ _ => True)
      ⟨.start bufferSize batchSize dropped old, []⟩ pool) : Kept deps dropped old pool := by
  refine reached.invariant ⟨nofun, Books.start_explained _ _ _ _, .refl _⟩ ?_
  intro pool move next kept _ moved
  exact kept.step moved

/-- What an account may still record. -/
def Account.left : Account → Nat
  | .closed => 0
  | _ => 1

theorem Account.left_le_one (m : Account) : m.left ≤ 1 := by
  cases m <;> simp [Account.left]

theorem records_length_le {w : Billing} {m : Account} {tr : Trace} (legal : Legal billing w m tr) :
    (records tr).length ≤ m.left := by
  induction tr generalizing m with
  | nil => exact Nat.zero_le _
  | cons ev tr ih =>
      obtain ⟨here, later⟩ := legal
      have rest := ih later
      obtain ⟨op, reply⟩ := ev
      cases op with
      | record entry =>
          obtain ⟨scopes, rfl, -⟩ := here
          have none_left : (records tr).length ≤ 0 := rest
          show (records tr).length + 1 ≤ 1
          omega
      | reserve scopes cost =>
          obtain rfl : m = .idle := here
          exact rest.trans (Account.left_le_one _)
      | adjust scopes delta =>
          obtain ⟨cost, rfl⟩ := here
          exact rest
      | _ => cases m <;> exact rest

/-- The entry is in the name of the request the process serves. -/
def FiledFor (deps : ChatDeps) (p : Process Op Op.Reply (List (Unit × Event Op Op.Reply)) Ended)
    (e : Entry) : Prop :=
  ∃ r ready, p.Serves (handleChatCompletions deps) r ∧ prepare deps r = .ok ready ∧
    (Op.record e).Owned deps r ready

theorem Kept.once (h : Kept deps dropped old pool) {p : Process Op Op.Reply _ Ended}
    (member : p ∈ pool.processes) : (filedBy p.state).length ≤ 1 := by
  obtain ⟨r, serves⟩ := h.traced p member
  have follows := handleChatCompletions_follows deps r
  exact records_length_le (serves.legal ({ redis := fun _ => none } : Billing) follows).1

theorem Kept.filedFor (h : Kept deps dropped old pool) {p : Process Op Op.Reply _ Ended}
    (member : p ∈ pool.processes) {e : Entry} (recorded : e ∈ filedBy p.state) : FiledFor deps p e := by
  obtain ⟨r, serves⟩ := h.traced p member
  obtain ⟨ev, inside, same⟩ := List.mem_filterMap.mp recorded
  have permitted := (serves.allowed (handleChatCompletions_permitted deps r)).1 ev inside
  obtain ⟨op, reply⟩ := ev
  cases op with
  | record entry =>
      cases same
      obtain alone | ⟨ready, prepared, owned⟩ := permitted
      · cases alone
      · exact ⟨r, ready, serves, prepared, owned⟩
  | _ => cases same

theorem Tiered.known {e : Entry} (h : Tiered e) : e.KnownTier := by
  obtain ⟨miss, -⟩ | ⟨⟨tier, hit⟩, -⟩ := h
  · exact .inl miss
  · cases tier with
    | exact => exact .inr (.inl hit)
    | semantic => exact .inr (.inr hit)

theorem Kept.knownTier (h : Kept deps dropped old pool) {e : Entry} (member : e ∈ filed pool) :
    e.KnownTier := by
  obtain ⟨p, inside, recorded⟩ := List.mem_flatMap.mp member
  obtain ⟨r, ready, -, -, owned⟩ := h.filedFor inside recorded
  exact owned.2.2.2.2.known

/-- A usage report counts, besides rows the table had before, requests of the tenant it is
about and no others, each at most once, with the costs they were recorded with up to half a
millionth of a dollar each; and its three tiers add up to its requests. Every request files
at most one entry, in its own caller's name. -/
theorem usage_report_sound {bufferSize batchSize : Nat}
    (reached : (bookkeeping deps).Reaches (fun _ _ => True)
      ⟨.start bufferSize batchSize dropped old, []⟩ pool)
    (tiers : ∀ row ∈ old, row.entry.KnownTier) (events : List Background) {lib : UsageLib}
    {q : UsageQuery} {now : ℤ} {fate : Fate} {response : UsageResponse}
    (reported : report lib q now fate (pool.shared.meanwhile events).table = .reported response) :
    (∃ (column : Ledger.Scope) (counted : List Entry),
      scopeColumn q.scope = some column ∧ lib.parseUUID q.id = some response.id ∧
      lib.window q now = .ok response.window ∧
      response.usage = summarize (Table.select old column response.id response.window ++
        counted.map Entry.stored) ∧
      counted.Subperm (filed pool) ∧ (∀ e ∈ counted, column.id e = response.id) ∧
      |((counted.map Entry.stored).map Entry.costUSD).sum - (counted.map Entry.costUSD).sum| ≤
        (counted.length : ℚ) / 2000000) ∧
      (response.usage.cacheHits.map Prod.snd).sum = response.usage.requests ∧
      ∀ p ∈ pool.processes, (filedBy p.state).length ≤ 1 ∧ ∀ e ∈ filedBy p.state, FiledFor deps p e := by
  have kept := kept_of_reaches reached
  obtain ⟨column, answers⟩ := report_answers reported
  obtain ⟨stored, lost, refused, accounted⟩ := kept.explained.meanwhile events
  obtain ⟨counted, part, rows⟩ := accounted.select column response.id response.window
  have usage := answers.usage
  rw [rows] at usage
  have whole : stored.Subperm (filed pool) := by
    have conserved := accounted.conserved
    rw [Books.meanwhile_recorded] at conserved
    exact (List.sublist_append_left _ _).subperm.trans (conserved.symm.trans kept.recorded).subperm
  have some_of : counted.Subperm (filed pool) :=
    (part.trans List.filter_sublist).subperm.trans whole
  refine ⟨⟨column, counted, answers.scope, answers.id, answers.window, usage, some_of, ?_,
    Ledger.abs_sum_stored_sub_le counted⟩, ?_, fun p member => ⟨kept.once member, fun e recorded =>
    kept.filedFor member recorded⟩⟩
  · intro e member
    simpa using (List.mem_filter.mp (part.subset member)).2
  · rw [usage]
    refine Ledger.sum_cacheHits ?_
    intro e member
    rcases List.mem_append.mp member with before | new
    · obtain ⟨row, inside, rfl⟩ := List.mem_map.mp (List.mem_filter.mp before).1
      exact tiers row (List.mem_filter.mp inside).1
    · obtain ⟨e, inside, rfl⟩ := List.mem_map.mp new
      have known := kept.knownTier (some_of.subset inside)
      exact known

/-- A request of another organisation. -/
def elsewhere : Request :=
  { asked hello with identity := some { caller with orgID := "o2", teamID := "t2", keyID := "k2" } }

def takes (i n : Nat) : List (Move Request Shift) :=
  List.replicate n (.act i ⟨[], false, shortAnswer⟩)

/-- Two requests of two organisations, answered side by side over a buffer of one slot. -/
def sideBySide : Option BookPool :=
  (bookkeeping oneProvider).run (fun _ _ => true) ⟨.start 1 2 0 [], []⟩
    (.start (asked hello) :: .start elsewhere :: takes 0 9 ++ takes 1 18 ++ takes 0 9)

def plainUsage : UsageLib := ⟨some, fun _ => none, fun _ => true⟩

/-- The goroutine receives, its ticker fires, and the insert is done after a millisecond. -/
def flushed : List Background := [.receive, .tick, .copied ⟨.answered, 1000, ""⟩]

def elsewhereUsage : UsageResponse :=
  ⟨"org", "o2", ⟨5000000 - day, 5000000⟩, 1, 8, 4, 0, 0, [("none", 1), ("exact", 0), ("semantic", 0)]⟩

theorem elsewhere_report_sound :
    ∃ pool, sideBySide = some pool ∧ (filed pool).map Entry.orgID = ["acme", "o2"] ∧
      report plainUsage ⟨"org", "o2", "", ""⟩ 5000000 .answered
        (pool.shared.meanwhile flushed).table = .reported elsewhereUsage ∧
      ∃ counted : List Entry, elsewhereUsage.usage = summarize (counted.map Entry.stored) ∧
        counted.Subperm (filed pool) ∧ ∀ e ∈ counted, e.orgID = "o2" := by
  have facts : (sideBySide.map fun pool =>
      decide ((filed pool).map Entry.orgID = ["acme", "o2"] ∧
        report plainUsage ⟨"org", "o2", "", ""⟩ 5000000 .answered
          (pool.shared.meanwhile flushed).table = .reported elsewhereUsage)) = some true := by
    decide +kernel
  obtain ⟨pool, ran, holds⟩ := Option.map_eq_some_iff.mp facts
  obtain ⟨both, reported⟩ := of_decide_eq_true holds
  obtain ⟨⟨column, counted, known, -, -, usage, part, own, -⟩, -⟩ :=
    usage_report_sound ((System.Reaches.of_run ran).mono fun _ _ _ => trivial) nofun flushed reported
  obtain rfl : Ledger.Scope.org = column := Option.some.inj known
  exact ⟨pool, ran, both, reported, counted, usage, part, own⟩

/-- Over a window that has every row, what a tenant's requests have recorded is in the report
but for what went down with a failed insert, is still with the writer, or was refused and
counted. -/
theorem usage_report_complete {bufferSize batchSize : Nat}
    (reached : (bookkeeping deps).Reaches (fun _ _ => True)
      ⟨.start bufferSize batchSize dropped old, []⟩ pool) (events : List Background)
    (column : Ledger.Scope) (id : String) {w : Window}
    (every : ∀ row ∈ (pool.shared.meanwhile events).table, w.contains row.createdAt = true) :
    ∃ counted lost refused : List Entry,
      Table.select (pool.shared.meanwhile events).table column id w =
        Ledger.own column id (old.map Ledger.Row.entry) ++ counted.map Entry.stored ∧
      (Ledger.own column id (filed pool)).Perm (counted ++ Ledger.own column id
        (lost ++ (pool.shared.meanwhile events).ledger.writer.backlog ++ refused)) ∧
      (∀ e ∈ lost, ∃ call ∈ (pool.shared.meanwhile events).ledger.inserts,
        e ∈ call.entries ∧ call.err ≠ none) ∧
      refused.length + dropped = (pool.shared.meanwhile events).ledger.ledgerDroppedTotal := by
  have kept := kept_of_reaches reached
  obtain ⟨stored, lost, refused, accounted⟩ := kept.explained.meanwhile events
  refine ⟨Ledger.own column id stored, lost, refused, accounted.select_all column id every, ?_,
    accounted.failed, accounted.refused_length⟩
  have conserved := accounted.conserved
  rw [Books.meanwhile_recorded] at conserved
  have split := (kept.recorded.symm.trans conserved).filter fun e => column.id e = id
  rwa [List.filter_append] at split

theorem refused_report_complete :
    ∃ pool, sideBySide = some pool ∧ (pool.shared.meanwhile flushed).ledger.ledgerDroppedTotal = 1 ∧
      ∃ counted lost refused : List Entry, refused.length = 1 ∧
        (Ledger.own .org "acme" (filed pool)).Perm (counted ++ Ledger.own .org "acme"
          (lost ++ (pool.shared.meanwhile flushed).ledger.writer.backlog ++ refused)) := by
  have facts : (sideBySide.map fun pool =>
      decide ((pool.shared.meanwhile flushed).ledger.ledgerDroppedTotal = 1 ∧
        ∀ row ∈ (pool.shared.meanwhile flushed).table,
          (⟨0, 2000000⟩ : Window).contains row.createdAt = true)) = some true := by
    decide +kernel
  obtain ⟨pool, ran, holds⟩ := Option.map_eq_some_iff.mp facts
  obtain ⟨one, every⟩ := of_decide_eq_true holds
  obtain ⟨counted, lost, refused, -, split, -, count⟩ := usage_report_complete
    ((System.Reaches.of_run ran).mono fun _ _ _ => trivial) flushed .org "acme" every
  rw [one] at count
  exact ⟨pool, ran, one, counted, lost, refused, count, split⟩

end Bookkeeping
end Gateway.Server
