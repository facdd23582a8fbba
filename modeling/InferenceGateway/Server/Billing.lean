import InferenceGateway.Interaction.Pool
import InferenceGateway.RateLimit.Limiter
import InferenceGateway.Server.Runs

/-! Any number of chat requests against one set of buckets and one ledger. Their handlers
are interleaved operation by operation, and a limiter call may fail at any of them; what the
ledger bills is still bounded by the buckets' rate, up to what failed calls left uncharged. -/
namespace Gateway.Server
open Gateway.Providers Gateway.Retry
open Gateway.RateLimit (Execution Fate Limiter Slot bucketKey runAll charged balance)
open Interaction hiding Program.perform
open Interaction.Program hiding pure perform

/-- Where one request stands with the limiter and the ledger. -/
inductive Account where
  | idle
  | reserved (scopes : RateLimit.Scopes) (cost : Int64)
  | settled (scopes : RateLimit.Scopes) (charge : Int64)
  | closed
  deriving DecidableEq

def granted (decided : Except String RateLimit.Decision) : Bool := decided.toOption.any (·.allowed)

def Account.advance : Account → Event Op Op.Reply → Account
  | m, ⟨.reserve scopes cost, decided⟩ => if granted decided then .reserved scopes cost else m
  | .reserved scopes cost, ⟨.adjust _ delta, _⟩ => .settled scopes (cost - delta)
  | .settled _ _, ⟨.record _, _⟩ => .closed
  | m, _ => m

/-- A row bills the settled charge to the caller the reservation was made for. -/
def Account.legal : Account → Event Op Op.Reply → Prop
  | m, ⟨.reserve _ _, _⟩ => m = .idle
  | m, ⟨.adjust scopes _, _⟩ => ∃ cost, m = .reserved scopes cost
  | m, ⟨.record entry, _⟩ => ∃ scopes, m = .settled scopes entry.billed ∧
      entry.orgID = scopes.orgID ∧ entry.teamID = scopes.teamID ∧ entry.virtualKeyID = scopes.keyID
  | _, _ => True

/-- What a limiter call let through without charging it: zero unless Redis failed the call. -/
structure Lapse where
  fate : Fate
  scopes : RateLimit.Scopes
  amount : ℤ
  deriving DecidableEq

/-- The buckets and the ledger, with the script executions and lapses that led to them. -/
structure Billing where
  redis : RateLimit.Redis
  executions : List Execution := []
  lapses : List Lapse := []
  rows : List Ledger.Entry := []

/-- What a step brings with it: the Redis clock, the fate of a limiter call, and the answer
to any other operation. -/
structure Turn where
  now : ℚ
  fate : Fate
  answer : (op : Op) → op.Reply

def Billing.reserve (l : Limiter) (w : Billing) (turn : Turn) (scopes : RateLimit.Scopes) (cost : Int64) :
    Except String RateLimit.Decision × Billing :=
  let x : Execution := ⟨turn.now, scopes, .reserve cost.toInt⟩
  let served := l.reserve turn.fate w.redis scopes cost turn.now
  let admitted := if granted served.1 then cost.toInt else 0
  let taken := if turn.fate.executes && x.writes w.redis then cost.toInt else 0
  (served.1,
    { w with
      redis := served.2
      executions := if turn.fate.executes then w.executions ++ [x] else w.executions
      lapses := w.lapses ++ [⟨turn.fate, scopes, admitted - taken⟩] })

def Billing.adjust (l : Limiter) (w : Billing) (turn : Turn) (scopes : RateLimit.Scopes) (delta : Int64) :
    Option String × Billing :=
  let x : Execution := ⟨turn.now, scopes, .adjust delta.toInt⟩
  let served := l.adjust turn.fate w.redis scopes delta turn.now
  let executed := turn.fate.executes = true ∧ delta ≠ 0
  (served.1,
    { w with
      redis := served.2
      executions := if executed then w.executions ++ [x] else w.executions
      lapses := w.lapses ++ [⟨turn.fate, scopes, if executed then 0 else -delta.toInt⟩] })

def Billing.serve (l : Limiter) (w : Billing) (turn : Turn) : (op : Op) → op.Reply × Billing
  | .reserve scopes cost => w.reserve l turn scopes cost
  | .adjust scopes delta => w.adjust l turn scopes delta
  | .record entry => ((), { w with rows := w.rows ++ [entry] })
  | op => (turn.answer op, w)

def billing : Protocol Op Op.Reply Billing Account where
  advance _ := Account.advance
  legal := Account.legal

abbrev BillingSystem := System Op Op.Reply Account Ended Billing Request Turn
abbrev BillingPool := Pool Op Op.Reply Account Ended Billing

def billingSystem (deps : ChatDeps) (l : Limiter) : BillingSystem where
  program := handleChatCompletions deps
  idle := .idle
  serve := Billing.serve l
  protocol := billing

/-- The 64-bit subtraction that settles a reservation does not wrap. -/
def unwrapped (pool : BillingPool) : Move Request Turn → Bool
  | .start _ => true
  | .act i _ =>
      match pool.processes[i]? with
      | some ⟨.request (.adjust _ delta) _, .reserved _ cost⟩ =>
          decide ((cost - delta).toInt = cost.toInt - delta.toInt)
      | _ => true

def bucketKeys (scopes : RateLimit.Scopes) : List String := scopes.slots.map Slot.key

/-- The buckets of the caller a row is billed to. -/
def rowKeys (entry : Ledger.Entry) : List String :=
  [bucketKey "org" entry.orgID, bucketKey "team" entry.teamID, bucketKey "key" entry.virtualKeyID]

/-- The tokens the rows of bucket `k`'s callers bill. -/
def billedTokens (k : String) (rows : List Ledger.Entry) : ℚ :=
  (rows.map fun entry => if k ∈ rowKeys entry then (entry.billed.toInt : ℚ) else 0).sum

/-- What one request holds of bucket `k` and has not billed yet. -/
def Account.due (k : String) : Account → ℚ
  | .idle | .closed => 0
  | .reserved scopes cost => if k ∈ bucketKeys scopes then (cost.toInt : ℚ) else 0
  | .settled scopes charge => if k ∈ bucketKeys scopes then (charge.toInt : ℚ) else 0

def openTokens (k : String) (pool : BillingPool) : ℚ := pool.total (Account.due k)

def lapsedTokens (k : String) (lapses : List Lapse) : ℚ :=
  (lapses.map fun lapse => if k ∈ bucketKeys lapse.scopes then (lapse.amount : ℚ) else 0).sum

section Handlers
variable {α : Type} {deps : ChatDeps} {r : Request} {a : Admitted} {m : Account}

theorem Account.advance_quiet {op : Op} (h : op.isQuiet) (m : Account) (reply : op.Reply) :
    m.advance ⟨op, reply⟩ = m := by
  cases op with
  | reserve scopes cost => exact h.elim
  | adjust scopes delta => exact h.elim
  | record entry => exact h.elim
  | _ => cases m <;> rfl

theorem Account.legal_quiet {op : Op} (h : op.isQuiet) (m : Account) (reply : op.Reply) :
    m.legal ⟨op, reply⟩ := by
  cases op with
  | reserve scopes cost => exact h.elim
  | adjust scopes delta => exact h.elim
  | record entry => exact h.elim
  | _ => cases m <;> trivial

theorem quiet_follows {p : ServerM α} (h : Within Op.isQuiet p) (m : Account) :
    p.Follows billing (fun _ m' => m' = m) m := by
  refine Follows.of_within (I := fun m' => m' = m) h ?_ rfl
  rintro op reply m' quiet rfl
  refine ⟨Account.legal_quiet quiet m' reply, ?_⟩
  intro c
  exact Account.advance_quiet quiet m' reply

/-- Quiet steps may be put before anything. -/
theorem Follows.after_quiet {β : Type} {final : β → Account → Prop} {p : ServerM α}
    {f : α → ServerM β} (h : Within Op.isQuiet p) (rest : ∀ a, (f a).Follows billing final m) :
    (p >>= f).Follows billing final m := by
  refine (quiet_follows h m).bind ?_
  rintro a m' rfl
  exact rest a

/-- The end of every path: nothing is asked of the account any more. -/
def anyEnd (_ : α) (_ : Account) : Prop := True

theorem quiet_end {p : ServerM α} (h : Within Op.isQuiet p) (m : Account) :
    p.Follows billing anyEnd m := (quiet_follows h m).mono fun _ _ _ => trivial

/-- The buckets of an admitted request are those of its caller. -/
def Admitted.Own (a : Admitted) : Prop :=
  a.identity.orgID = a.scopes.orgID ∧ a.identity.teamID = a.scopes.teamID ∧
    a.identity.keyID = a.scopes.keyID

theorem record_follows {scopes : RateLimit.Scopes} {charge : Int64} {entry : Ledger.Entry}
    {f : Unit → ServerM α} (billed : entry.billed = charge)
    (own : entry.orgID = scopes.orgID ∧ entry.teamID = scopes.teamID ∧
      entry.virtualKeyID = scopes.keyID)
    (rest : Within Op.isQuiet (f ())) :
    (record deps entry >>= f).Follows billing anyEnd (.settled scopes charge) := by
  unfold record
  split
  · refine Follows.perform_bind fun reply => ⟨⟨scopes, by rw [billed], own⟩, ?_⟩
    intro c
    exact quiet_end rest _
  · exact quiet_end rest _

theorem since_quiet (start : Int64) : Within Op.isQuiet (since start) :=
  (Within.perform trivial).bind fun _ => .pure _

/-- Settling for `charge` leaves exactly that to be billed. -/
theorem settle_follows {charge : Int64} {f : Option String → ServerM α}
    (rest : ∀ err, (f err).Follows billing anyEnd (.settled a.scopes charge)) :
    (perform (.adjust a.scopes (a.cost - charge)) >>= f).Follows billing anyEnd
      (.reserved a.scopes a.cost) := by
  refine Follows.perform_bind fun err => ⟨⟨a.cost, rfl⟩, ?_⟩
  intro c
  have net : a.cost - (a.cost - charge) = charge := by grind
  show (f err).Follows billing anyEnd (.settled a.scopes (a.cost - (a.cost - charge)))
  rw [net]
  exact rest err

/-- A full refund leaves nothing to be billed. -/
theorem refund_follows {f : Option String → ServerM α}
    (rest : ∀ err, (f err).Follows billing anyEnd (.settled a.scopes 0)) :
    (perform (.adjust a.scopes a.cost) >>= f).Follows billing anyEnd
      (.reserved a.scopes a.cost) := by
  have whole : (perform (.adjust a.scopes (a.cost - 0)) >>= f).Follows billing anyEnd
      (.reserved a.scopes a.cost) := settle_follows rest
  rwa [Int64.sub_zero] at whole

theorem finishCacheHit_follows (own : a.Own) (tier : CacheTier) (cached : CanonicalResponse) :
    (finishCacheHit deps r a.identity tier cached a.start).Follows billing anyEnd
      (.settled a.scopes 0) :=
  Follows.after_quiet (since_quiet _) fun _ => record_follows rfl own (.pure _)

theorem handleStreamError_follows (own : a.Own) (s : StreamState) (failure : StreamError) :
    (handleStreamError deps r a s failure).Follows billing anyEnd (.reserved a.scopes a.cost) := by
  unfold handleStreamError
  split
  · refine refund_follows fun _ => quiet_end ?_ _
    exact ((reportEngineError_within _ _ _).mono fun _ => Op.isReport.quiet).bind fun _ => .pure _
  · refine settle_follows fun _ => Follows.after_quiet
      ((writeSSEEvent_within _ _).mono fun _ => Op.isHttp.quiet) fun _ => Follows.after_quiet
      ((flushIf_within _).mono fun _ => Op.isHttp.quiet) fun _ => Follows.after_quiet
      (since_quiet _) fun _ => ?_
    exact record_follows rfl own (.pure _)

theorem finishStream_follows (own : a.Own) (ctx : StreamContext) (lookup : CacheLookup)
    (s : StreamState) (result : StreamResult) :
    (finishStream deps r a ctx lookup s result).Follows billing anyEnd
      (.reserved a.scopes a.cost) := by
  refine Follows.after_quiet ((write_within _).mono fun _ => Op.isHttp.quiet) fun _ =>
    Follows.after_quiet ((flushIf_within _).mono fun _ => Op.isHttp.quiet) fun _ =>
    settle_follows fun _ => Follows.after_quiet (since_quiet _) fun _ => ?_
  refine record_follows rfl own ?_
  exact ((storeInCaches_within _ _ _ _).mono fun _ => Op.isStore.quiet).bind fun _ => .pure _

theorem finishCompletion_follows (own : a.Own) (lookup : CacheLookup) (result : Result) :
    (finishCompletion deps r a lookup result).Follows billing anyEnd
      (.reserved a.scopes a.cost) := by
  unfold finishCompletion
  split
  · exact trivial
  · refine Follows.after_quiet ((writeCompletion_within _ _ _ _).mono fun _ => Op.isHttp.quiet)
      fun _ => Follows.after_quiet ((storeInCaches_within _ _ _ _).mono fun _ => Op.isStore.quiet)
      fun _ => settle_follows fun _ => Follows.after_quiet (since_quiet _) fun _ => ?_
    exact record_follows rfl own (.pure _)

theorem handleStreamingChatCompletion_follows (own : a.Own) :
    (handleStreamingChatCompletion deps r a).Follows billing anyEnd
      (.reserved a.scopes a.cost) := by
  refine Follows.after_quiet ((checkCaches_within _ _ _).mono fun _ => Op.isLookup.quiet) ?_
  rintro ⟨hit, found⟩
  cases hit with
  | some hit =>
      exact refund_follows fun _ => Follows.after_quiet
        ((writeCachedStream_within _ _ _).mono fun _ => Op.isReplay.quiet) fun _ =>
        finishCacheHit_follows own _ _
  | none =>
      refine Follows.after_quiet (.perform trivial) fun _ => Follows.after_quiet (.perform trivial)
        fun _ => Follows.after_quiet
        ((Within.handle (relay_within _ _) _ _).mono fun _ => Op.isRelay.quiet) ?_
      rintro ⟨streamed, s⟩
      rcases streamed with - | failure | result
      · exact trivial
      · exact handleStreamError_follows own _ _
      · exact finishStream_follows own _ _ _ _

theorem completeChat_follows (own : a.Own) :
    (completeChat deps r a).Follows billing anyEnd (.reserved a.scopes a.cost) := by
  refine Follows.after_quiet ((checkCaches_within _ _ _).mono fun _ => Op.isLookup.quiet) ?_
  rintro ⟨hit, found⟩
  cases hit with
  | some hit =>
      exact refund_follows fun _ => Follows.after_quiet
        ((writeCachedResponse_within _ _).mono fun _ => Op.isHttp.quiet) fun _ =>
        finishCacheHit_follows own _ _
  | none =>
      have each : ∀ s o, Within Op.isQuiet (direct s o) :=
        fun s o => .bind (.perform trivial) fun _ => .pure _
      refine Follows.after_quiet (Within.handle each _ _) ?_
      rintro ⟨executed, s⟩
      rcases executed with - | failure | result
      · exact trivial
      · refine refund_follows fun _ => quiet_end ?_ _
        exact ((reportEngineError_within _ _ _).mono fun _ => Op.isReport.quiet).bind
          fun _ => .pure _
      · exact finishCompletion_follows own _ _

/-- A handler reserves once, settles an allowed reservation before it bills, and bills its
own caller the settled charge. -/
theorem handleChatCompletions_follows (deps : ChatDeps) (r : Request) :
    (handleChatCompletions deps r).Follows billing anyEnd .idle := by
  refine Follows.after_quiet (.perform trivial) fun start => ?_
  simp only
  cases ready : prepare deps r with
  | error refusal =>
      refine quiet_end ?_ _
      exact ((writeJSONError_within _ _ _).mono fun _ => Op.isHttp.quiet).bind fun _ => .pure _
  | ok p =>
      refine Follows.perform_bind fun decided => ⟨rfl, ?_⟩
      intro c
      cases decided with
      | error err =>
          refine quiet_end ?_ _
          exact ((writeJSONError_within _ _ _).mono fun _ => Op.isHttp.quiet).bind
            fun _ => .pure _
      | ok decision =>
          simp only
          split
          · refine quiet_end ?_ _
            exact ((writeRateLimitRejection_within _ _).mono fun _ => Op.isHttp.quiet).bind
              fun _ => .pure _
          · rename_i allowed
            have admitted : billing.advance c .idle ⟨.reserve (requestScopes deps p.identity)
                (reservationCost deps p.req), .ok decision⟩ =
                .reserved (requestScopes deps p.identity) (reservationCost deps p.req) := by
              have yes : granted (.ok decision) = true := by
                simpa [granted, Except.toOption] using allowed
              simp [billing, Account.advance, yes]
            rw [admitted]
            split
            · exact handleStreamingChatCompletion_follows (a := afterReserve deps p start)
                ⟨rfl, rfl, rfl⟩
            · exact completeChat_follows (a := afterReserve deps p start) ⟨rfl, rfl, rfl⟩

end Handlers

section Accounting
variable {l : Limiter} {w : Billing} {turn : Turn} {r₀ : RateLimit.Redis}

theorem Billing.serve_quiet {op : Op} (h : op.isQuiet) : w.serve l turn op = (turn.answer op, w) := by
  cases op with
  | reserve scopes cost => exact h.elim
  | adjust scopes delta => exact h.elim
  | record entry => exact h.elim
  | _ => rfl

theorem runAll_append_single (r : RateLimit.Redis) (xs : List Execution) (x : Execution) :
    runAll r (xs ++ [x]) = x.run (runAll r xs) := by
  simp [runAll]

theorem charged_append (k : String) (r : RateLimit.Redis) (xs ys : List Execution) :
    charged k r (xs ++ ys) = charged k r xs + charged k (runAll r xs) ys := by
  induction xs generalizing r with
  | nil => simp [charged, runAll]
  | cons x xs ih =>
      rw [List.cons_append, charged, charged, ih, add_assoc]
      rfl

theorem charged_append_single (k : String) (r : RateLimit.Redis) (xs : List Execution) (x : Execution) :
    charged k r (xs ++ [x]) = charged k r xs + x.charge k (runAll r xs) := by
  rw [charged_append]
  simp [charged]

/-- What a window of executions takes out of a bucket is covered by its capacity and refill. -/
theorem charged_window_le {k : String} {cap s e : ℚ} (positive : 0 < cap) (r : RateLimit.Redis)
    {window : List Execution}
    (fixed : ∀ x ∈ window, ∀ slot ∈ x.scopes.slots, slot.key = k → slot.cap = cap)
    (order : (window.map Execution.time).Pairwise (· ≤ ·))
    (inside : ∀ x ∈ window, s ≤ x.time ∧ x.time ≤ e) (span : s ≤ e) :
    charged k r window ≤ cap + cap / 60 * (e - s) - balance (runAll r window) k cap e := by
  have rate : 0 ≤ cap / 60 := by positivity
  have times : ∀ t ∈ (RateLimit.events k r window).map Prod.fst, s ≤ t ∧ t ≤ e := by
    intro t member
    rw [RateLimit.events_times] at member
    obtain ⟨x, here, rfl⟩ := List.mem_map.mp member
    exact inside x here
  have sorted : (s :: (RateLimit.events k r window).map Prod.fst).Pairwise (· ≤ ·) := by
    refine List.pairwise_cons.mpr ⟨fun t member => (times t member).1, ?_⟩
    rw [RateLimit.events_times]
    exact order
  have low : balance r k cap s ≤ cap := TokenBucket.level_le_cap
  have bound := (TokenBucket.spent_add_level_le rate sorted
    (fun ev member => (times ev.1 (List.mem_map_of_mem member)).2) span low).1
  rw [RateLimit.spent_events, ← RateLimit.runAll_refines _ fixed] at bound
  unfold balance
  linarith

theorem lapsedTokens_append_single (k : String) (lapses : List Lapse) (lapse : Lapse) :
    lapsedTokens k (lapses ++ [lapse]) =
      lapsedTokens k lapses + if k ∈ bucketKeys lapse.scopes then (lapse.amount : ℚ) else 0 := by
  simp [lapsedTokens]

/-- The buckets are what the executions made of them. -/
def Billing.Replayed (r₀ : RateLimit.Redis) (w : Billing) : Prop := w.redis = runAll r₀ w.executions

/-- What has been charged to a bucket or let through unpaid. -/
def Billing.outlay (r₀ : RateLimit.Redis) (k : String) (w : Billing) : ℚ :=
  charged k r₀ w.executions + lapsedTokens k w.lapses

theorem Billing.Replayed.reserve (h : w.Replayed r₀) (scopes : RateLimit.Scopes) (cost : Int64) :
    (w.reserve l turn scopes cost).2.Replayed r₀ := by
  unfold Billing.Replayed at h ⊢
  simp only [Billing.reserve, Limiter.reserve]
  cases turn.fate with
  | answered =>
      simp only [Fate.executes, if_true]
      rw [runAll_append_single, ← h]
      rfl
  | unanswered err =>
      simp only [Fate.executes, if_true]
      rw [runAll_append_single, ← h]
      rfl
  | unexecuted err => simpa [Fate.executes] using h

theorem Billing.Replayed.adjust (h : w.Replayed r₀) (scopes : RateLimit.Scopes) (delta : Int64) :
    (w.adjust l turn scopes delta).2.Replayed r₀ := by
  unfold Billing.Replayed at h ⊢
  simp only [Billing.adjust, Limiter.adjust_state]
  split
  · rw [runAll_append_single, ← h]
  · exact h

theorem charged_if (h : w.Replayed r₀) (k : String) (executed : Prop) [Decidable executed]
    (x : Execution) :
    charged k r₀ (if executed then w.executions ++ [x] else w.executions) =
      charged k r₀ w.executions + if executed then x.charge k w.redis else 0 := by
  split
  · rw [charged_append_single, ← h]
  · rw [add_zero]

/-- A reservation adds its cost exactly if it is granted, whatever became of the call. -/
theorem Billing.outlay_reserve (h : w.Replayed r₀) (k : String) (scopes : RateLimit.Scopes)
    (cost : Int64) :
    (w.reserve l turn scopes cost).2.outlay r₀ k = w.outlay r₀ k +
      if granted (w.reserve l turn scopes cost).1 then Account.due k (.reserved scopes cost) else 0 := by
  have taken : (⟨turn.now, scopes, .reserve cost.toInt⟩ : Execution).charge k w.redis =
      if k ∈ bucketKeys scopes then
        if (⟨turn.now, scopes, .reserve cost.toInt⟩ : Execution).writes w.redis then (cost.toInt : ℚ)
        else 0
      else 0 := by
    simp [Execution.charge, Execution.writes, bucketKeys]
  simp only [Billing.outlay, Billing.reserve, charged_if h, lapsedTokens_append_single, taken,
    Account.due]
  by_cases touched : k ∈ bucketKeys scopes
  · simp only [touched, if_true]
    cases turn.fate.executes <;>
      cases (⟨turn.now, scopes, .reserve cost.toInt⟩ : Execution).writes w.redis <;>
      simp <;> ring
  · simp [touched]

/-- An adjustment adds what it does not give back. -/
theorem Billing.outlay_adjust (h : w.Replayed r₀) (k : String) (scopes : RateLimit.Scopes)
    (delta : Int64) :
    (w.adjust l turn scopes delta).2.outlay r₀ k = w.outlay r₀ k -
      if k ∈ bucketKeys scopes then (delta.toInt : ℚ) else 0 := by
  have given : (⟨turn.now, scopes, .adjust delta.toInt⟩ : Execution).charge k w.redis =
      if k ∈ bucketKeys scopes then -(delta.toInt : ℚ) else 0 := by
    simp [Execution.charge, bucketKeys]
  simp only [Billing.outlay, Billing.adjust, charged_if h, lapsedTokens_append_single, given]
  by_cases touched : k ∈ bucketKeys scopes
  · simp only [touched, if_true]
    split <;> push_cast <;> ring
  · simp [touched]

/-- Lapses stem from failures alone. -/
def Billing.Sound (w : Billing) : Prop :=
  ∀ lapse ∈ w.lapses, lapse.fate = .answered → lapse.amount = 0

theorem Billing.Sound.append {lapses : List Lapse} {last : Lapse}
    (h : ∀ lapse ∈ lapses, lapse.fate = .answered → lapse.amount = 0)
    (free : last.fate = .answered → last.amount = 0) :
    ∀ lapse ∈ lapses ++ [last], lapse.fate = .answered → lapse.amount = 0 := by
  intro lapse member
  rcases List.mem_append.mp member with old | new
  · exact h lapse old
  · rw [List.mem_singleton.mp new]
    exact free

theorem Billing.Sound.reserve (h : w.Sound) (scopes : RateLimit.Scopes) (cost : Int64) :
    (w.reserve l turn scopes cost).2.Sound := by
  refine Billing.Sound.append h ?_
  intro answered
  simp only at answered
  simp [answered, Limiter.reserve, Fate.executes, Execution.writes, RateLimit.decision, granted,
    Except.toOption]

theorem Billing.Sound.adjust (h : w.Sound) (scopes : RateLimit.Scopes) (delta : Int64) :
    (w.adjust l turn scopes delta).2.Sound := by
  refine Billing.Sound.append h ?_
  intro answered
  simp only at answered
  by_cases zero : delta = 0
  · simp [zero]
  · simp [answered, Fate.executes, zero]

theorem billedTokens_append_single (k : String) (rows : List Ledger.Entry) (entry : Ledger.Entry) :
    billedTokens k (rows ++ [entry]) =
      billedTokens k rows + if k ∈ rowKeys entry then (entry.billed.toInt : ℚ) else 0 := by
  simp [billedTokens]

theorem Billing.serve_extends (op : Op) : w.executions <+: (w.serve l turn op).2.executions := by
  by_cases quiet : op.isQuiet
  · rw [Billing.serve_quiet quiet]
  · cases op with
    | reserve scopes cost =>
        simp only [Billing.serve, Billing.reserve]
        split <;> simp
    | adjust scopes delta =>
        simp only [Billing.serve, Billing.adjust]
        split <;> simp
    | record entry => exact List.prefix_rfl
    | _ => exact absurd trivial quiet

/-- What the requests on bucket `k` have billed and still hold, less what lapses let through. -/
def accounted (k : String) (pool : BillingPool) : ℚ :=
  billedTokens k pool.shared.rows + openTokens k pool - lapsedTokens k pool.shared.lapses

/-- Every token charged to a bucket is billed, held by a request, or let through unpaid. -/
structure Balanced (deps : ChatDeps) (l : Limiter) (r₀ : RateLimit.Redis) (pool : BillingPool) :
    Prop where
  disciplined : (billingSystem deps l).Disciplined anyEnd pool
  replayed : pool.shared.Replayed r₀
  sound : pool.shared.Sound
  account : ∀ k, billedTokens k pool.shared.rows + openTokens k pool = pool.shared.outlay r₀ k

variable {deps : ChatDeps} {pool next : BillingPool}

theorem rowKeys_eq {entry : Ledger.Entry} {scopes : RateLimit.Scopes}
    (own : entry.orgID = scopes.orgID ∧ entry.teamID = scopes.teamID ∧
      entry.virtualKeyID = scopes.keyID) : rowKeys entry = bucketKeys scopes := by
  obtain ⟨org, team, key⟩ := own
  simp [rowKeys, bucketKeys, RateLimit.Scopes.slots, org, team, key]

theorem Balanced.act (h : Balanced deps l r₀ pool) {i : Nat}
    (allowed : unwrapped pool (.act i turn) = true)
    (moved : (billingSystem deps l).step pool (.act i turn) = some next) :
    next.shared.Replayed r₀ ∧ next.shared.Sound ∧
      ∀ k, billedTokens k next.shared.rows + openTokens k next = next.shared.outlay r₀ k := by
  obtain ⟨op, continue_, m, found, rfl⟩ := System.act_cases moved
  have legal := ((h.disciplined _ (List.mem_of_getElem? found)) (pool.shared.serve l turn op).1).1
  have before := h.account
  simp only [openTokens, Pool.total_act _ found] at before ⊢
  by_cases quiet : op.isQuiet
  · simp only [billingSystem, billing, Billing.serve_quiet quiet, Account.advance_quiet quiet,
      sub_self, add_zero]
    exact ⟨h.replayed, h.sound, before⟩
  · cases op with
    | reserve scopes cost =>
        cases (legal : m = .idle)
        refine ⟨h.replayed.reserve scopes cost, h.sound.reserve scopes cost, ?_⟩
        intro k
        have spent : (pool.shared.reserve l turn scopes cost).2.outlay r₀ k = _ :=
          Billing.outlay_reserve h.replayed k scopes cost
        show billedTokens k pool.shared.rows + (pool.total (Account.due k) + (Account.due k
          (if granted (pool.shared.reserve l turn scopes cost).1 then .reserved scopes cost
            else .idle) - 0)) = (pool.shared.reserve l turn scopes cost).2.outlay r₀ k
        rw [spent, ← before k]
        split
        · ring
        · simp [Account.due]
    | adjust scopes delta =>
        obtain ⟨cost, rfl⟩ := (legal : ∃ cost, m = .reserved scopes cost)
        refine ⟨h.replayed.adjust scopes delta, h.sound.adjust scopes delta, ?_⟩
        intro k
        have unbroken : (cost - delta).toInt = cost.toInt - delta.toInt := by
          simpa [unwrapped, found] using allowed
        have spent : (pool.shared.adjust l turn scopes delta).2.outlay r₀ k = _ :=
          Billing.outlay_adjust h.replayed k scopes delta
        show billedTokens k pool.shared.rows + (pool.total (Account.due k) + (Account.due k
          (.settled scopes (cost - delta)) - Account.due k (.reserved scopes cost))) =
            (pool.shared.adjust l turn scopes delta).2.outlay r₀ k
        rw [spent, ← before k]
        simp only [Account.due, unbroken]
        split <;> push_cast <;> ring
    | record entry =>
        obtain ⟨scopes, rfl, own⟩ := (legal : ∃ scopes, m = .settled scopes entry.billed ∧ _)
        refine ⟨h.replayed, h.sound, ?_⟩
        intro k
        show billedTokens k (pool.shared.rows ++ [entry]) + (pool.total (Account.due k) +
          (Account.due k .closed - Account.due k (.settled scopes entry.billed))) =
            pool.shared.outlay r₀ k
        rw [billedTokens_append_single, rowKeys_eq own, ← before k]
        simp only [Account.due]
        ring
    | _ => exact absurd trivial quiet

theorem Balanced.step (h : Balanced deps l r₀ pool) {move : Move Request Turn}
    (allowed : unwrapped pool move = true)
    (moved : (billingSystem deps l).step pool move = some next) : Balanced deps l r₀ next := by
  have disciplined := h.disciplined.step (handleChatCompletions_follows deps) moved
  cases move with
  | start r =>
      cases moved
      refine ⟨disciplined, h.replayed, h.sound, ?_⟩
      intro k
      have same := Pool.total_start (Account.due k) pool ⟨handleChatCompletions deps r, .idle⟩
      simp only [Account.due, add_zero] at same
      exact (congrArg (billedTokens k pool.shared.rows + ·) same).trans (h.account k)
  | act i turn =>
      obtain ⟨replayed, sound, account⟩ := h.act allowed moved
      exact ⟨disciplined, replayed, sound, account⟩

theorem balanced_start (deps : ChatDeps) (l : Limiter) (r₀ : RateLimit.Redis) :
    Balanced deps l r₀ ⟨{ redis := r₀ }, []⟩ := by
  refine ⟨nofun, rfl, nofun, ?_⟩
  intro k
  simp [billedTokens, openTokens, Pool.total, Billing.outlay, charged, lapsedTokens]

/-- Steps of the gateway that all settle without wrapping. -/
abbrev Operates (deps : ChatDeps) (l : Limiter) : BillingPool → BillingPool → Prop :=
  (billingSystem deps l).Reaches fun pool move => unwrapped pool move = true

theorem Balanced.operates {mid : BillingPool} (h : Balanced deps l r₀ mid) (later : Operates deps l mid pool) :
    Balanced deps l r₀ pool :=
  later.invariant h fun _ _ _ inv allowed moved => inv.step allowed moved

theorem Operates.extends {mid : BillingPool} (later : Operates deps l mid pool) :
    mid.shared.executions <+: pool.shared.executions := by
  let extended (pool : BillingPool) : Prop := mid.shared.executions <+: pool.shared.executions
  suffices extended pool from this
  refine later.invariant List.prefix_rfl ?_
  intro pool move next inv _ moved
  cases move with
  | start r =>
      cases moved
      exact inv
  | act i turn =>
      obtain ⟨op, continue_, m, found, rfl⟩ := System.act_cases moved
      exact inv.trans (Billing.serve_extends op)

end Accounting

/-- Every engine call succeeds, for eight prompt and four completion tokens. -/
def shortAnswer : (op : Op) → op.Reply :=
  smooth (calm (fun _ => ⟨.ok ⟨"1", "chat.completion", 0, "large", [], ⟨8, 4, 12⟩⟩, 0⟩)
    (fun _ => ⟨[], none, 0⟩) []) []

def acts (i n : Nat) (now : ℚ) : List (Move Request Turn) :=
  List.replicate n (.act i ⟨now, .answered, shortAnswer⟩)

/-- Two requests are let in, and the first reserves. -/
def opening : Option BillingPool :=
  (billingSystem oneProvider ⟨false⟩).run unwrapped ⟨{ redis := fun _ => none }, []⟩
    (.start (asked hello) :: .start (asked hello) :: acts 0 2 0)

/-- The second reserves as well, then the first is answered and billed. -/
def closing (mid : BillingPool) : Option BillingPool :=
  (billingSystem oneProvider ⟨false⟩).run unwrapped mid (acts 1 2 1 ++ acts 0 16 2)

end Gateway.Server
