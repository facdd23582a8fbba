import InferenceGateway.Breaker.Slots
import InferenceGateway.Breaker.Window

/-! One breaker under any number of callers, each of which reports exactly one outcome for
every call that Allow admitted, at any later time. -/
namespace Gateway.Breaker

variable {b : Breaker} {now : Int} {clock : Readings}

theorem recordSuccess_halfOpen (half : b.state = .halfOpen) (now : Int) :
    (b.cfg.halfOpenProbes ≤ b.halfOpenWins + 1 ∧ (b.recordSuccess now).state = .closed) ∨
      ((b.recordSuccess now).state = .halfOpen ∧
        (b.recordSuccess now).halfOpenWins = b.halfOpenWins + 1) := by
  simp only [recordSuccess, half]
  split
  · rename_i enough
    exact .inl ⟨enough, rfl⟩
  · exact .inr ⟨rfl, rfl⟩

theorem recordSuccess_state (other : b.state ≠ .halfOpen) : (b.recordSuccess now).state = b.state := by
  cases state : b.state with
  | halfOpen => exact absurd state other
  | closed =>
      simp only [recordSuccess, state]
      exact state
  | opened =>
      simp only [recordSuccess, state]

theorem recordFailure_halfOpen (half : b.state = .halfOpen) (clock : Readings) :
    (b.recordFailure clock).state = .opened := by
  simp only [recordFailure, half]

/-- Record leaves its mark in the ring. -/
theorem record_ne (positive : 0 < b.windowSeconds)
    (size : b.buckets.length = b.windowSeconds.toNat) (success : Bool) :
    b.record now success ≠ b := by
  intro same
  have inside : (unix now % b.windowSeconds).toNat < b.buckets.length :=
    size ▸ SlidingWindow.index_lt positive (unix now)
  have written := congrArg (fun b : Breaker => b.buckets[(unix now % b.windowSeconds).toNat]?) same
  simp only [record, List.getElem?_set_self inside, List.getD_eq_getElem?_getD,
    List.getElem?_eq_getElem inside, Option.getD_some, Option.some.injEq] at written
  generalize b.buckets[(unix now % b.windowSeconds).toNat] = current at written
  by_cases taken : current.unixSec = unix now
  · cases success with
    | true =>
        have := congrArg Bucket.successes written
        simp [taken] at this
    | false =>
        have := congrArg Bucket.failures written
        simp [taken] at this
  · cases success with
    | true =>
        have := congrArg Bucket.unixSec written
        simp [taken] at this
        exact taken this.symm
    | false =>
        have := congrArg Bucket.unixSec written
        simp [taken] at this
        exact taken this.symm

/-- A call that Allow admitted: by whom, and in which period. A period lasts from one change
of the breaker's state to the next. -/
structure Call where
  caller : Nat
  period : Nat
  deriving DecidableEq

structure Report where
  call : Call
  period : Nat
  success : Bool
  deriving DecidableEq

/-- The breaker with what its callers know of it and the breaker does not. `opening` is the
period of the last change to open. -/
structure Traffic where
  breaker : Breaker
  period : Nat := 0
  opening : Nat := 0
  outstanding : List Call := []
  reports : List Report := []

inductive Act where
  | allow (caller : Nat) (now : Int)
  | report (call : Call) (success : Bool) (clock : Readings)

namespace Traffic

/-- The breaker after a method call; a change of its state starts a period. -/
def become (s : Traffic) (b : Breaker) : Traffic :=
  if b.state = s.breaker.state then { s with breaker := b }
  else
    { s with
      breaker := b
      period := s.period + 1
      opening := if b.state = .opened then s.period + 1 else s.opening }

def outcome (s : Traffic) (success : Bool) (clock : Readings) : Breaker :=
  if success then s.breaker.recordSuccess clock.recordedAt else s.breaker.recordFailure clock

/-- An act of a caller. Only an outstanding call can be reported, and it is so once. -/
def step (s : Traffic) : Act → Traffic
  | .allow caller now =>
      let next := s.become (s.breaker.allow now).2
      if (s.breaker.allow now).1 then
        { next with outstanding := ⟨caller, next.period⟩ :: next.outstanding }
      else next
  | .report call success clock =>
      if call ∈ s.outstanding then
        { s.become (s.outcome success clock) with
          outstanding := s.outstanding.erase call
          reports := ⟨call, s.period, success⟩ :: s.reports }
      else s

def run (s : Traffic) (acts : List Act) : Traffic := acts.foldl step s

def start (providerName model : String) (cfg : Config) : Traffic where
  breaker := newBreaker providerName model cfg

variable {s : Traffic} {act : Act}

@[simp] theorem become_breaker (s : Traffic) (b : Breaker) : (s.become b).breaker = b := by
  unfold become
  split <;> rfl

@[simp] theorem become_outstanding (s : Traffic) (b : Breaker) :
    (s.become b).outstanding = s.outstanding := by
  unfold become
  split <;> rfl

theorem outcome_cfg (success : Bool) (clock : Readings) :
    (s.outcome success clock).cfg = s.breaker.cfg := by
  unfold outcome
  split
  · exact recordSuccess_cfg
  · exact recordFailure_cfg

theorem outcome_metered {out : Int} (h : s.breaker.Metered out) (success : Bool) (clock : Readings) :
    (s.outcome success clock).Metered (out - 1) := by
  unfold outcome
  split
  · exact recordSuccess_metered h
  · exact recordFailure_metered

theorem step_cfg : (s.step act).breaker.cfg = s.breaker.cfg := by
  cases act with
  | allow caller now =>
      simp only [step]
      split <;> exact (congrArg Breaker.cfg (become_breaker s _)).trans allow_cfg
  | report call success clock =>
      simp only [step]
      split
      · exact (congrArg Breaker.cfg (become_breaker s _)).trans (outcome_cfg success clock)
      · rfl

/-- Slots left, calls outstanding and wins cover the quota after every act: an admission
trades a slot for a call, a report a call for a win. -/
theorem step_metered (probes : 1 ≤ s.breaker.cfg.halfOpenProbes)
    (h : s.breaker.Metered s.outstanding.length) :
    (s.step act).breaker.Metered (s.step act).outstanding.length := by
  cases act with
  | allow caller now =>
      simp only [step]
      by_cases reopening : s.breaker.reopens now
      · obtain ⟨allowed, metered⟩ := allow_metered_of_reopens probes reopening
        simp only [allowed, if_true, become_breaker, become_outstanding, List.length_cons]
        exact metered.mono (by omega)
      · obtain ⟨granted, refused⟩ := allow_metered h reopening
        split
        · rename_i allowed
          simpa using granted allowed
        · rename_i denied
          simpa using refused (Bool.not_eq_true _ ▸ denied)
  | report call success clock =>
      simp only [step]
      split
      · rename_i member
        have left := List.length_erase_of_mem member
        have positive := List.length_pos_of_mem member
        simp only [become_breaker, left]
        have reported := outcome_metered h success clock
        exact reported.mono (by omega)
      · exact h

theorem run_metered {cfg : Config} (probes : 1 ≤ cfg.halfOpenProbes) (providerName model : String)
    {acts : List Act} (reached : (start providerName model cfg).run acts = s) :
    s.breaker.cfg = cfg ∧ s.breaker.Metered s.outstanding.length := by
  subst reached
  have kept : ∀ (s : Traffic), s.breaker.cfg = cfg ∧ s.breaker.Metered s.outstanding.length →
      (s.run acts).breaker.cfg = cfg ∧ (s.run acts).breaker.Metered (s.run acts).outstanding.length := by
    induction acts with
    | nil => exact fun s h => h
    | cons act acts ih =>
        rintro s ⟨same, metered⟩
        exact ih (s.step act) ⟨step_cfg.trans same, step_metered (same ▸ probes) metered⟩
  exact kept _ ⟨rfl, newBreaker_metered providerName model cfg⟩

/-- Half-open slots are conserved: under every valid configuration and any interleaving of
callers, a half-open breaker is not overdue to close, its slots, wins and outstanding calls
cover the quota, and with no call outstanding it is ready. -/
theorem halfOpen_slots_conserved {isPrint : Char → Bool} (cfg : Gateway.Config.Accepted isPrint)
    (providerName model : String) {acts : List Act}
    (reached : (start providerName model cfg.breakerConfig).run acts = s)
    (half : s.breaker.state = .halfOpen) :
    s.breaker.halfOpenWins < cfg.breakerConfig.halfOpenProbes ∧
      cfg.breakerConfig.halfOpenProbes ≤
        s.breaker.halfOpenAllowed + s.outstanding.length + s.breaker.halfOpenWins ∧
      (s.outstanding = [] → ∀ now, s.breaker.ready now = true) := by
  obtain ⟨same, metered⟩ := run_metered cfg.halfOpenProbes_pos providerName model reached
  obtain ⟨-, wins, covered⟩ := metered half
  rw [same] at wins covered
  refine ⟨wins, by omega, ?_⟩
  intro nobody now
  rw [nobody, List.length_nil] at covered
  have slots : 0 < s.breaker.halfOpenAllowed := by omega
  simp only [ready, half, slots, decide_true]

/-- A breaker that opens on the first failure and closes on two successful probes. -/
def twoProbes : Gateway.Config.Accepted (fun _ => true) :=
  .deployment ⟨.finite 1, 1, 1000000000, 1000000000, 1000000000, 2, 1⟩ ⟨1, 1, 1⟩ (by decide +kernel)

/-- Caller 0 trips the breaker; after the cooldown caller 1 is admitted as a probe. -/
def tripped : List Act :=
  [.allow 0 0, .report ⟨0, 0⟩ false ⟨0, 0, 0⟩, .allow 1 2000000000]

theorem answered_probe_conserves_slots :
    let s := (start "a" "m" twoProbes.breakerConfig).run
      (tripped ++ [.report ⟨1, 2⟩ true ⟨2000000000, 2000000000, 2000000000⟩])
    s.breaker.halfOpenWins < 2 ∧
      2 ≤ s.breaker.halfOpenAllowed + s.outstanding.length + s.breaker.halfOpenWins ∧
      s.breaker.ready 3000000000 = true := by
  intro s
  have reached : (start "a" "m" twoProbes.breakerConfig).run
    (tripped ++ [.report ⟨1, 2⟩ true ⟨2000000000, 2000000000, 2000000000⟩]) = s := rfl
  obtain ⟨wins, covered, ready⟩ := halfOpen_slots_conserved twoProbes "a" "m" reached
    (by decide +kernel)
  exact ⟨wins, covered, ready (by decide +kernel) 3000000000⟩

/-- Reports of a period's own calls, made within it. -/
def ownReports (s : Traffic) (period : Nat) (success : Bool) : Nat :=
  s.reports.countP fun r => r.period == period && r.call.period == period && r.success == success

/-- The call was admitted before the breaker last opened. -/
def Stale (s : Traffic) (call : Call) : Prop := call ∈ s.outstanding ∧ call.period < s.opening

/-- What an act may do to the breaker: close it on a full quota of successes of its own
half-open period, reopen it on a failure of that period, and nothing on a stale outcome. -/
structure Evidenced (s : Traffic) (act : Act) : Prop where
  closes : s.breaker.state = .halfOpen → (s.step act).breaker.state = .closed →
    s.breaker.cfg.halfOpenProbes ≤ (s.step act).ownReports s.period true
  reopens : s.breaker.state = .halfOpen → (s.step act).breaker.state = .opened →
    0 < (s.step act).ownReports s.period false
  stale : ∀ call success clock, act = .report call success clock → s.Stale call →
    (s.step act).breaker = s.breaker

/-- A stale outcome is reported only while the breaker is open. -/
def Timely (s : Traffic) (act : Act) : Prop :=
  ∀ call success clock, act = .report call success clock → s.Stale call →
    s.breaker.state = .opened

/-- A property of every act of a run, at the state it meets. -/
def Along (property : Traffic → Act → Prop) : Traffic → List Act → Prop
  | _, [] => True
  | s, act :: acts => property s act ∧ Along property (s.step act) acts

/-- How the periods lie: an open breaker is in the period of its last opening, a half-open
one in the period after it, and no call was admitted in an open period. -/
structure Periodic (s : Traffic) : Prop where
  opened : s.breaker.state = .opened → 0 < s.opening ∧ s.period = s.opening
  halfOpen : s.breaker.state = .halfOpen → 0 < s.opening ∧ s.period = s.opening + 1
  closed : s.breaker.state = .closed → s.opening = 0 ∨ s.opening < s.period
  calls : ∀ call ∈ s.outstanding, call.period ≤ s.period ∧ (call.period = s.opening → s.opening = 0)

/-- Every win of a half-open breaker is a success of the period's own. -/
def WinsOwn (s : Traffic) : Prop :=
  s.breaker.state = .halfOpen → s.breaker.halfOpenWins ≤ s.ownReports s.period true

def Sized (s : Traffic) : Prop :=
  0 < s.breaker.windowSeconds ∧ s.breaker.buckets.length = s.breaker.windowSeconds.toNat

theorem Periodic.become (h : s.Periodic) {b : Breaker}
    (move : b.state = .halfOpen → s.breaker.state ≠ .closed) : (s.become b).Periodic := by
  unfold Traffic.become
  split
  · rename_i same
    exact ⟨fun opened => h.opened (same ▸ opened), fun half => h.halfOpen (same ▸ half),
      fun closed => h.closed (same ▸ closed), h.calls⟩
  · rename_i changed
    have below : s.opening ≤ s.period := by
      cases state : s.breaker.state with
      | closed =>
          have := h.closed state
          omega
      | halfOpen =>
          have := h.halfOpen state
          omega
      | opened =>
          have := h.opened state
          omega
    cases state : b.state with
    | opened =>
        refine ⟨fun _ => by simp, ?_, ?_, ?_⟩
        · rw [state]
          nofun
        · rw [state]
          nofun
        · intro call member
          have := (h.calls call member).1
          simp only [if_true]
          omega
    | halfOpen =>
        have opened : s.breaker.state = .opened := by
          cases before : s.breaker.state with
          | opened => rfl
          | halfOpen => exact absurd (state.trans before.symm) changed
          | closed => exact absurd before (move state)
        obtain ⟨positive, here⟩ := h.opened opened
        refine ⟨?_, fun _ => ?_, ?_, ?_⟩
        · rw [state]
          nofun
        · simp only [reduceCtorEq, if_false]
          omega
        · rw [state]
          nofun
        · intro call member
          have := h.calls call member
          simp only [reduceCtorEq, if_false]
          omega
    | closed =>
        refine ⟨?_, ?_, fun _ => ?_, ?_⟩
        · rw [state]
          nofun
        · rw [state]
          nofun
        · simp only [reduceCtorEq, if_false]
          omega
        · intro call member
          have := h.calls call member
          simp only [reduceCtorEq, if_false]
          omega

theorem outcome_halfOpen {success : Bool} {clock : Readings}
    (half : (s.outcome success clock).state = .halfOpen) : success = true ∧ s.breaker.state = .halfOpen := by
  cases success with
  | false => exact absurd half recordFailure_not_halfOpen
  | true =>
      refine ⟨rfl, ?_⟩
      by_contra other
      have kept : (s.breaker.recordSuccess clock.recordedAt).state = s.breaker.state :=
        recordSuccess_state other
      exact other (kept.symm.trans half)

theorem Periodic.step (h : s.Periodic) : (s.step act).Periodic := by
  cases act with
  | allow caller now =>
      have moved : (s.become (s.breaker.allow now).2).Periodic := by
        apply h.become
        intro half
        rcases allow_cases s.breaker now with ⟨opened, -⟩ | ⟨same, -⟩
        · simp [opened]
        · simp [← same, half]
      simp only [Traffic.step]
      split
      · rename_i allowed
        refine ⟨moved.opened, moved.halfOpen, moved.closed, ?_⟩
        intro call member
        rcases List.mem_cons.mp member with rfl | old
        · refine ⟨le_refl _, ?_⟩
          simp only
          have open_ : (s.become (s.breaker.allow now).2).breaker.state ≠ .opened := by
            rw [become_breaker]
            rcases allow_cases s.breaker now with ⟨-, half, -⟩ | ⟨same, -, shut⟩
            · simp [half]
            · rw [same]
              exact shut allowed
          cases state : (s.become (s.breaker.allow now).2).breaker.state with
          | opened => exact absurd state open_
          | halfOpen =>
              have := moved.halfOpen state
              omega
          | closed =>
              have := moved.closed state
              omega
        · exact moved.calls call old
      · exact moved
  | report call success clock =>
      simp only [Traffic.step]
      split
      · have moved : (s.become (s.outcome success clock)).Periodic := by
          apply h.become
          intro half
          simp [(outcome_halfOpen half).2]
        refine ⟨moved.opened, moved.halfOpen, moved.closed, ?_⟩
        intro other member
        apply moved.calls other
        rw [become_outstanding]
        exact List.mem_of_mem_erase member
      · exact h

theorem become_period {b : Breaker} (same : b.state = s.breaker.state) :
    (s.become b).period = s.period := by
  rw [become, if_pos same]

theorem become_reports (s : Traffic) (b : Breaker) : (s.become b).reports = s.reports := by
  unfold become
  split <;> rfl

theorem step_report {call : Call} (member : call ∈ s.outstanding) (success : Bool) (clock : Readings) :
    s.step (.report call success clock) =
      { s.become (s.outcome success clock) with
        outstanding := s.outstanding.erase call
        reports := ⟨call, s.period, success⟩ :: s.reports } := if_pos member

/-- The outcome of a call of the period's own counts as such. -/
theorem ownReports_report {call : Call} (member : call ∈ s.outstanding) (own : call.period = s.period)
    (success : Bool) (clock : Readings) :
    (s.step (.report call success clock)).ownReports s.period success =
      s.ownReports s.period success + 1 := by
  rw [step_report member]
  simp [ownReports, own]

/-- In half-open, a call that is not stale was admitted in this very period. -/
theorem Periodic.own_of_not_stale (h : s.Periodic) {call : Call} (half : s.breaker.state = .halfOpen)
    (member : call ∈ s.outstanding) (current : ¬ s.Stale call) : call.period = s.period := by
  have lie := h.halfOpen half
  have admitted := h.calls call member
  have since : ¬ call.period < s.opening := fun earlier => current ⟨member, earlier⟩
  omega

theorem Periodic.own_of_timely (h : s.Periodic) {call : Call} {success : Bool} {clock : Readings}
    (half : s.breaker.state = .halfOpen) (member : call ∈ s.outstanding)
    (timely : s.Timely (.report call success clock)) : call.period = s.period := by
  apply h.own_of_not_stale half member
  intro stale
  have := timely call success clock rfl stale
  rw [half] at this
  cases this

theorem WinsOwn.step (h : s.WinsOwn) (periodic : s.Periodic) (timely : s.Timely act) :
    (s.step act).WinsOwn := by
  cases act with
  | allow caller now =>
      have kept : (s.become (s.breaker.allow now).2).WinsOwn := by
        intro half
        rw [become_breaker] at half ⊢
        rcases allow_cases s.breaker now with ⟨-, -, none⟩ | ⟨same, wins, -⟩
        · rw [none]
          exact Int.natCast_nonneg _
        · rw [wins, become_period same, ownReports, become_reports]
          exact h (same.symm.trans half)
      simp only [Traffic.step]
      split
      · exact kept
      · exact kept
  | report call success clock =>
      by_cases member : call ∈ s.outstanding
      · intro half
        have after : (s.step (.report call success clock)).breaker = s.outcome success clock := by
          rw [step_report member]
          exact become_breaker s _
        rw [after] at half ⊢
        obtain ⟨rfl, before⟩ := outcome_halfOpen half
        have own := periodic.own_of_timely before member timely
        have period : (s.step (.report call true clock)).period = s.period := by
          rw [step_report member]
          exact become_period (half.trans before.symm)
        rw [period, ownReports_report member own]
        have wins := h before
        rcases recordSuccess_halfOpen before _ with ⟨-, closed⟩ | ⟨-, more⟩
        · exact absurd (half.symm.trans closed) nofun
        · change (s.breaker.recordSuccess clock.recordedAt).halfOpenWins ≤ _
          rw [more]
          push_cast
          omega
      · have idle : s.step (.report call success clock) = s := if_neg member
        rw [idle]
        exact h

theorem Sized.step (h : s.Sized) : (s.step act).Sized := by
  have allowed : ∀ now, (s.breaker.allow now).2.windowSeconds = s.breaker.windowSeconds ∧
      (s.breaker.allow now).2.buckets = s.breaker.buckets := by
    intro now
    by_cases reopening : s.breaker.reopens now
    · simp only [Breaker.allow, enterHalfOpen_of_reopens reopening]
      split <;> exact ⟨rfl, rfl⟩
    · simp only [Breaker.allow, enterHalfOpen_of_not_reopens reopening]
      split
      · exact ⟨rfl, rfl⟩
      · split <;> exact ⟨rfl, rfl⟩
      · exact ⟨rfl, rfl⟩
  have recorded : ∀ success clock,
      (s.outcome success clock).windowSeconds = s.breaker.windowSeconds ∧
        (s.outcome success clock).buckets.length = s.breaker.buckets.length := by
    intro success clock
    cases success with
    | true =>
        simp only [outcome, if_true, recordSuccess]
        split
        · split
          · exact ⟨rfl, List.length_map _⟩
          · exact ⟨rfl, rfl⟩
        · exact ⟨rfl, List.length_set⟩
        · exact ⟨rfl, rfl⟩
    | false =>
        simp only [outcome, Bool.false_eq_true, if_false, recordFailure]
        split
        · exact ⟨rfl, rfl⟩
        · split
          · exact ⟨rfl, List.length_set⟩
          · exact ⟨rfl, List.length_set⟩
        · exact ⟨rfl, rfl⟩
  unfold Sized at h ⊢
  cases act with
  | allow caller now =>
      simp only [Traffic.step]
      split <;> simpa [become_breaker, allowed now] using h
  | report call success clock =>
      simp only [Traffic.step]
      split
      · simpa [become_breaker, recorded success clock] using h
      · exact h

/-- Every outcome changes a breaker that is not open. -/
theorem Sized.outcome_ne (h : s.Sized) {success : Bool} {clock : Readings}
    (same : s.outcome success clock = s.breaker) : s.breaker.state = .opened := by
  cases state : s.breaker.state with
  | opened => rfl
  | halfOpen =>
      cases success with
      | true =>
          rcases recordSuccess_halfOpen state clock.recordedAt with ⟨-, closed⟩ | ⟨-, more⟩
          · have same : s.breaker.recordSuccess clock.recordedAt = s.breaker := same
            rw [same, state] at closed
            cases closed
          · have same : s.breaker.recordSuccess clock.recordedAt = s.breaker := same
            rw [same] at more
            omega
      | false =>
          have same : s.breaker.recordFailure clock = s.breaker := same
          have opened := recordFailure_halfOpen state clock
          rw [same, state] at opened
          cases opened
  | closed =>
      cases success with
      | true =>
          simp only [outcome, if_true, recordSuccess, state] at same
          exact absurd same (record_ne h.1 h.2 true)
      | false =>
          simp only [outcome, Bool.false_eq_true, if_false, recordFailure, state] at same
          split at same
          · have opened := congrArg Breaker.state same
            rw [state] at opened
            cases opened
          · exact absurd same (record_ne h.1 h.2 false)

theorem outcome_opened (opened : s.breaker.state = .opened) (success : Bool) (clock : Readings) :
    s.outcome success clock = s.breaker := by
  cases success with
  | true => simp only [outcome, if_true, recordSuccess, opened]
  | false => simp only [outcome, Bool.false_eq_true, if_false, recordFailure, opened]

/-- An act that takes a breaker out of half-open reports an outstanding call: a success that
completes the quota, or a failure. -/
theorem leaves_halfOpen (half : s.breaker.state = .halfOpen)
    (left : (s.step act).breaker.state ≠ .halfOpen) :
    ∃ call success clock, act = .report call success clock ∧ call ∈ s.outstanding ∧
      (success = true → s.breaker.cfg.halfOpenProbes ≤ s.breaker.halfOpenWins + 1 ∧
        (s.step act).breaker.state = .closed) ∧
      (success = false → (s.step act).breaker.state = .opened) := by
  cases act with
  | allow caller now =>
      exfalso
      apply left
      have after : (s.step (.allow caller now)).breaker = (s.breaker.allow now).2 := by
        simp only [step]
        split <;> exact become_breaker s _
      rw [after]
      rcases allow_cases s.breaker now with ⟨-, still, -⟩ | ⟨same, -⟩
      · exact still
      · exact same.trans half
  | report call success clock =>
      by_cases member : call ∈ s.outstanding
      · have after : (s.step (.report call success clock)).breaker = s.outcome success clock := by
          rw [step_report member]
          exact become_breaker s _
        refine ⟨call, success, clock, rfl, member, ?_, ?_⟩
        · rintro rfl
          rw [after] at left ⊢
          rcases recordSuccess_halfOpen half clock.recordedAt with closed | ⟨still, -⟩
          · exact closed
          · exact absurd still left
        · rintro rfl
          rw [after]
          exact recordFailure_halfOpen half clock
      · have idle : s.step (.report call success clock) = s := if_neg member
        rw [idle] at left
        exact absurd half left

theorem evidenced_iff_timely (periodic : s.Periodic) (wins : s.WinsOwn) (sized : s.Sized) :
    s.Evidenced act ↔ s.Timely act := by
  constructor
  · rintro ⟨-, -, unmoved⟩ call success clock rfl stale
    have same := unmoved call success clock rfl stale
    rw [step_report stale.1] at same
    exact sized.outcome_ne ((become_breaker s _).symm.trans same)
  · intro timely
    constructor
    · intro half closed
      obtain ⟨call, success, clock, rfl, member, won, lost⟩ :=
        leaves_halfOpen half (by rw [closed]; nofun)
      cases success with
      | false => exact absurd ((lost rfl).symm.trans closed) nofun
      | true =>
          rw [ownReports_report member (periodic.own_of_timely half member timely)]
          have enough := (won rfl).1
          have counted := wins half
          push_cast
          omega
    · intro half opened
      obtain ⟨call, success, clock, rfl, member, won, lost⟩ :=
        leaves_halfOpen half (by rw [opened]; nofun)
      cases success with
      | true => exact absurd ((won rfl).2.symm.trans opened) nofun
      | false =>
          rw [ownReports_report member (periodic.own_of_timely half member timely)]
          exact Nat.succ_pos _
    · rintro call success clock rfl stale
      rw [step_report stale.1]
      exact (become_breaker s _).trans
        (outcome_opened (timely call success clock rfl stale) success clock)

theorem along_evidenced_iff {acts : List Act} (periodic : s.Periodic) (wins : s.WinsOwn)
    (sized : s.Sized) : Along Evidenced s acts ↔ Along Timely s acts := by
  induction acts generalizing s with
  | nil => exact Iff.rfl
  | cons act acts ih =>
      rw [Along, Along, evidenced_iff_timely periodic wins sized]
      apply and_congr_right
      intro timely
      exact ih periodic.step (wins.step periodic timely) sized.step

/-- A breaker moves on evidence of its own probes alone, over any interleaving of callers,
exactly if no outcome of a call admitted before it last opened reaches it closed or half-open. -/
theorem moves_on_own_evidence_iff {isPrint : Char → Bool} (cfg : Gateway.Config.Accepted isPrint)
    (providerName model : String) (acts : List Act) :
    Along Evidenced (start providerName model cfg.breakerConfig) acts ↔
      Along Timely (start providerName model cfg.breakerConfig) acts := by
  apply along_evidenced_iff
  · exact ⟨nofun, nofun, fun _ => .inl rfl, nofun⟩
  · nofun
  · exact ⟨lt_of_lt_of_le one_pos (le_max_left 1 _), List.length_replicate⟩

/-- Callers 2 and 3 are admitted before caller 0 trips the breaker. Caller 1 is the probe of
the half-open period; in it, caller 2 reports success. -/
def overlapping : List Act :=
  [.allow 2 0, .allow 3 0] ++ tripped ++
    [.report ⟨2, 0⟩ true ⟨3000000000, 3000000000, 3000000000⟩]

/-- Caller 3's outcome then closes or reopens the breaker, though the probe is still out. -/
theorem late_outcome_moves_breaker :
    let s := (start "a" "m" twoProbes.breakerConfig).run overlapping
    let late (success : Bool) := s.step (.report ⟨3, 0⟩ success ⟨3000000000, 3000000000, 3000000000⟩)
    s.breaker.state = .halfOpen ∧ ⟨1, 2⟩ ∈ s.outstanding ∧
      (late true).breaker.state = .closed ∧ (late true).ownReports s.period true = 0 ∧
      (late false).breaker.state = .opened ∧ (late false).ownReports s.period false = 0 := by
  decide +kernel

end Traffic
end Gateway.Breaker
