import InferenceGateway.Retry.Statusless

/-! A provider's Retry-After from the header to the next call: ParseRetryAfter in 64-bit
nanoseconds, and what one visit of the engine waits between two calls. -/
namespace Gateway.Providers

/-- The value of a nonempty run of ASCII digits. -/
def decimal (digits : List Char) : Option Nat :=
  if digits ≠ [] ∧ digits.all Char.isDigit = true then
    some (digits.foldl (fun value c => 10 * value + (c.toNat - 48)) 0)
  else none

/-- strconv.Atoi on a 64-bit platform; `none` is its error. -/
def atoi (s : String) : Option Int64 :=
  match s.toList with
  | '-' :: digits =>
      (decimal digits).bind fun value =>
        if value ≤ 2 ^ 63 then some (Int64.ofInt (-value)) else none
  | '+' :: digits =>
      (decimal digits).bind fun value => if value < 2 ^ 63 then some (Int64.ofNat value) else none
  | digits =>
      (decimal digits).bind fun value => if value < 2 ^ 63 then some (Int64.ofNat value) else none

def second : Duration := 1000000000

/-- ParseRetryAfter; `until` is time.Until of what http.ParseTime makes of the header. -/
def parseRetryAfter (until_ : String → Option Duration) (header : String) : Duration :=
  if header = "" then 0
  else
    match atoi header with
    | some secs => if secs < 0 then 0 else secs * second
    | none =>
        match until_ header with
        | some d => if 0 < d then d else 0
        | none => 0

theorem parseRetryAfter_of_atoi {until_ : String → Option Duration} {header : String} {secs : Int64}
    (parsed : atoi header = some secs) (nonneg : 0 ≤ secs) :
    parseRetryAfter until_ header = secs * second := by
  have some_text : header ≠ "" := by
    rintro rfl
    simp [atoi, decimal] at parsed
  simp only [parseRetryAfter, if_neg some_text, parsed, if_neg (Int64.not_lt.mpr nonneg)]

/-- Seconds keep their length in nanoseconds as long as a word holds them. -/
theorem le_toInt_mul_second_iff {secs : Int64} (nonneg : 0 ≤ secs) :
    secs.toInt * 10 ^ 9 ≤ (secs * second).toInt ↔ secs.toInt ≤ 9223372036 := by
  have positive : 0 ≤ secs.toInt := Int64.le_iff_toInt_le.mp nonneg
  have length : second.toInt = 10 ^ 9 := by decide
  constructor
  · intro kept
    have small : (secs * second).toInt < 2 ^ 63 := (secs * second).toInt_lt
    omega
  · intro fits
    rw [Int64.toInt_mul, length, Int.bmod_eq_of_le (by omega) (by omega)]

end Gateway.Providers

namespace Gateway.Retry
open Gateway.Providers Interaction Interaction.Program

def Op.isCall : Op → Bool
  | .complete _ _ | .stream _ _ => true
  | _ => false

/-- The failure a call came back with. -/
def failedWith : Event Op Op.Reply → Option CallError
  | ⟨.complete _ _, reply⟩ =>
      match reply.result with
      | .ok _ => none
      | .error err => some err
  | ⟨.stream _ _, reply⟩ => reply.err
  | _ => none

/-- The nanoseconds an event waited. -/
def slept : Event Op Op.Reply → Nat
  | ⟨.sleep d, true⟩ => d.toInt.toNat
  | _ => 0

def waited (tr : Trace) : Nat := (tr.map slept).sum

/-- The Retry-After a failure carries. -/
def carried (err : Option CallError) : Option Duration :=
  (err.bind CallError.asAPIError).map APIError.retryAfter

/-- Between a call that failed with this Retry-After, the failure not replaced by one of the
callback, and the next call the trace waits so long. -/
def WaitsOut (delay : Duration) (nanoseconds : Int) (tr : Trace) : Prop :=
  ∀ before call between next after, tr = before ++ call :: (between ++ next :: after) →
    call.1.isCall = true → carried (failedWith call) = some delay →
    (∀ ev ∈ between, ev.1.isCall = false ∧ refusal ev = none) → next.1.isCall = true →
    nanoseconds ≤ waited between

section
variable {delay : Duration} {nanoseconds owed : Int} {tr tr₁ tr₂ : Trace} {ev : Event Op Op.Reply}

/-- What is still to be waited before the next call. -/
def owedAfter (delay : Duration) (nanoseconds owed : Int) (ev : Event Op Op.Reply) : Int :=
  if ev.1.isCall = true then if carried (failedWith ev) = some delay then nanoseconds else 0
  else if refusal ev = none then owed - slept ev else 0

def owedAt (delay : Duration) (nanoseconds : Int) : Int → Trace → Int :=
  List.foldl (owedAfter delay nanoseconds)

/-- No call is made while something is owed. -/
def Pays (delay : Duration) (nanoseconds : Int) : Int → Trace → Prop
  | _, [] => True
  | owed, ev :: tr => (ev.1.isCall = true → owed ≤ 0) ∧
      Pays delay nanoseconds (owedAfter delay nanoseconds owed ev) tr

theorem pays_append : Pays delay nanoseconds owed (tr₁ ++ tr₂) ↔
    Pays delay nanoseconds owed tr₁ ∧ Pays delay nanoseconds (owedAt delay nanoseconds owed tr₁) tr₂ := by
  induction tr₁ generalizing owed with
  | nil => simp [Pays, owedAt]
  | cons ev tr₁ ih =>
      rw [List.cons_append, Pays, Pays, ih, and_assoc]
      rfl

/-- Where nothing is called or refused, the debt falls by what is waited. -/
theorem owedAt_of_calm (calm : ∀ ev ∈ tr, ev.1.isCall = false ∧ refusal ev = none) :
    owedAt delay nanoseconds owed tr = owed - waited tr ∧ Pays delay nanoseconds owed tr := by
  induction tr generalizing owed with
  | nil => simp [owedAt, waited, Pays]
  | cons ev tr ih =>
      obtain ⟨idle, kept⟩ := calm ev List.mem_cons_self
      have step : owedAfter delay nanoseconds owed ev = owed - slept ev := by
        simp [owedAfter, idle, kept]
      obtain ⟨later, pays⟩ := @ih (owed - slept ev) fun e member => calm e (List.mem_cons_of_mem _ member)
      refine ⟨?_, by simp [idle], ?_⟩
      · rw [owedAt, List.foldl_cons, step]
        refine later.trans ?_
        rw [waited, waited, List.map_cons, List.sum_cons]
        omega
      · rw [step]
        exact pays

theorem Pays.waitsOut (h : Pays delay nanoseconds owed tr) : WaitsOut delay nanoseconds tr := by
  rintro before call between next after rfl called carries calm next_call
  obtain ⟨-, paid⟩ := pays_append.mp h
  have debt : ∀ owed, owedAfter delay nanoseconds owed call = nanoseconds := by
    intro owed
    simp [owedAfter, called, carries]
  rw [Pays, debt] at paid
  obtain ⟨-, last⟩ := pays_append.mp paid.2
  rw [(owedAt_of_calm calm).1] at last
  have settled := last.1 next_call
  omega

theorem calm_of_waits (h : ∀ ev ∈ tr, ev.1.isWait = true) :
    ∀ ev ∈ tr, ev.1.isCall = false ∧ refusal ev = none := by
  rintro ⟨op, reply⟩ member
  have wait := h _ member
  cases op <;> first | exact ⟨rfl, rfl⟩ | cases wait

/-- The header's wait is slept in full before the loop goes on. -/
theorem waitBefore_waited {cfg : Config} {attempt : Nat} {lastErr : Option CallError}
    (later : 0 < attempt) (carries : carried lastErr = some delay)
    (run : Runs (waitBefore cfg attempt lastErr) tr true) : delay.toInt ≤ waited tr := by
  obtain ⟨a, api, rfl⟩ := Option.map_eq_some_iff.mp carries
  rw [waitBefore, if_pos later] at run
  obtain ⟨tr₁, d, tr₂, rfl, chosen, slept_run⟩ := runs_bind.mp run
  by_cases positive : 0 < a.retryAfter
  · simp only [backoffFor, api, if_pos positive] at chosen
    obtain ⟨rfl, rfl⟩ := runs_pure.mp chosen
    rw [sleepWithinDeadline, if_neg (Int64.not_le.mpr positive), runs_perform] at slept_run
    rw [slept_run, waited]
    simp only [List.nil_append, List.map_cons, List.map_nil, List.sum_cons, List.sum_nil, slept]
    exact Int.self_le_toNat _
  · have small := Int64.le_iff_toInt_le.mp (Int64.not_lt.mp positive)
    exact small.trans (Int.natCast_nonneg _)

/-- The debt is one the loop is about to wait for. -/
def Owes (delay : Duration) (nanoseconds owed : Int) (attempt : Nat) (lastErr : Option CallError) :
    Prop := owed ≤ 0 ∨ (0 < attempt ∧ carried lastErr = some delay ∧ owed ≤ nanoseconds)

theorem Owes.settled {cfg : Config} {attempt : Nat} {lastErr : Option CallError}
    (h : Owes delay nanoseconds owed attempt lastErr) (covers : nanoseconds ≤ delay.toInt)
    (run : Runs (waitBefore cfg attempt lastErr) tr true) :
    owedAt delay nanoseconds owed tr ≤ 0 := by
  rw [(owedAt_of_calm (calm_of_waits (waitBefore_waits run))).1]
  rcases h with nothing | ⟨later, carries, bound⟩
  · omega
  · have slept_long := waitBefore_waited later carries run
    omega

end

namespace Engine
variable {e : Engine} {c : Candidate} {req providerReq : CanonicalRequest} {delay : Duration}
  {nanoseconds owed : Int}

/-- A call leaves a debt only if its failure carries the wait. -/
theorem owes_of_call {ev : Event Op Op.Reply} (called : ev.1.isCall = true) (owed : Int)
    (attempt : Nat) :
    Owes delay nanoseconds (owedAfter delay nanoseconds owed ev) (attempt + 1) (failedWith ev) := by
  rw [owedAfter, if_pos called]
  split
  · rename_i carries
    exact .inr ⟨Nat.succ_pos attempt, carries, le_rfl⟩
  · exact .inl le_rfl

@[simp] theorem owedAfter_recordFailure (name model : String) :
    owedAfter delay nanoseconds owed ⟨.recordFailure name model, ()⟩ = owed := by
  simp [owedAfter, Op.isCall, refusal, slept]

theorem attemptLoop_pays {remaining attempt : Nat} {lastErr : Option CallError}
    {attempts : List Attempt} {duration : Duration} {tr : Trace} {t : Tried}
    (covers : nanoseconds ≤ delay.toInt) (owes : Owes delay nanoseconds owed attempt lastErr)
    (run : Runs (e.attemptLoop c providerReq remaining attempt lastErr attempts duration) tr t) :
    Pays delay nanoseconds owed tr := by
  induction remaining generalizing attempt lastErr attempts duration tr owed with
  | zero =>
      obtain ⟨rfl, -⟩ := runs_pure.mp run
      trivial
  | succ remaining ih =>
      obtain ⟨go, tr₁, tr₂, rfl, wait, ⟨-, rfl, -⟩ | ⟨rfl, reply, tr₃, rfl, after⟩⟩ := attemptLoop_succ run
      · rw [List.append_nil]
        exact (owedAt_of_calm (calm_of_waits (waitBefore_waits wait))).2
      · refine pays_append.mpr ⟨(owedAt_of_calm (calm_of_waits (waitBefore_waits wait))).2,
          fun _ => owes.settled covers wait, ?_⟩
        have debt := @owes_of_call delay nanoseconds ⟨.complete c.providerName providerReq, reply⟩ rfl
          (owedAt delay nanoseconds owed tr₁) attempt
        simp only [failedWith] at debt
        generalize reply.result = answer at after debt
        cases after with
        | success resp => exact ⟨by simp [Op.isCall], trivial⟩
        | terminal err _ => trivial
        | fallback err _ => exact ⟨by simp [Op.isCall], trivial⟩
        | retry err _ again =>
            refine ⟨by simp [Op.isCall], ?_⟩
            rw [owedAfter_recordFailure]
            exact ih debt again

/-- The relay passes the stream's failure on, or a refusal that owes nothing. -/
theorem relayDeltas_owes {name model : String} {err : Option CallError} {ds : List Delta}
    {usage : Option Usage} {flushed : Bool} {tr : Trace} {out : Relayed} {attempt : Nat}
    (owes : Owes delay nanoseconds owed attempt err)
    (run : Runs (relayDeltas name model err ds usage flushed) tr out) :
    Pays delay nanoseconds owed tr ∧
      Owes delay nanoseconds (owedAt delay nanoseconds owed tr) attempt out.err := by
  induction ds generalizing usage flushed tr owed with
  | nil =>
      obtain ⟨rfl, rfl⟩ := runs_pure.mp run
      exact ⟨trivial, owes⟩
  | cons d ds ih =>
      obtain ⟨refused, tr', rfl, rest⟩ := runs_perform_bind.mp run
      cases refused with
      | some failure =>
          obtain ⟨rfl, rfl⟩ := runs_pure.mp rest
          refine ⟨⟨by simp [Op.isCall], trivial⟩, .inl ?_⟩
          simp [owedAt, owedAfter, Op.isCall, refusal]
      | none =>
          have kept : owedAfter delay nanoseconds owed ⟨.onDelta name model d, none⟩ = owed := by
            simp [owedAfter, Op.isCall, refusal, slept]
          obtain ⟨pays, later⟩ := ih owes rest
          refine ⟨⟨by simp [Op.isCall], ?_⟩, ?_⟩
          · rw [kept]
            exact pays
          · rw [owedAt, List.foldl_cons, kept]
            exact later

theorem streamLoop_pays {remaining attempt : Nat} {lastErr : Option CallError} {flushed : Bool}
    {attempts : List Attempt} {duration : Duration} {tr : Trace} {t : TriedStream}
    (covers : nanoseconds ≤ delay.toInt) (owes : Owes delay nanoseconds owed attempt lastErr)
    (run : Runs (e.streamLoop c providerReq remaining attempt lastErr flushed attempts duration) tr t) :
    Pays delay nanoseconds owed tr := by
  induction remaining generalizing attempt lastErr flushed attempts duration tr owed with
  | zero =>
      obtain ⟨rfl, -⟩ := runs_pure.mp run
      trivial
  | succ remaining ih =>
      obtain ⟨go, tr₁, tr₂, rfl, wait,
        ⟨-, rfl, -⟩ | ⟨rfl, reply, relayed, tr₃, tr₄, rfl, relay, after⟩⟩ := streamLoop_succ run
      · rw [List.append_nil]
        exact (owedAt_of_calm (calm_of_waits (waitBefore_waits wait))).2
      · refine pays_append.mpr ⟨(owedAt_of_calm (calm_of_waits (waitBefore_waits wait))).2,
          fun _ => owes.settled covers wait, ?_⟩
        have debt := @owes_of_call delay nanoseconds ⟨.stream c.providerName providerReq, reply⟩ rfl
          (owedAt delay nanoseconds owed tr₁) attempt
        obtain ⟨pays, later⟩ := relayDeltas_owes debt relay
        refine pays_append.mpr ⟨pays, ?_⟩
        generalize relayed.err = answer at after later
        cases after with
        | success => exact ⟨by simp [Op.isCall], trivial⟩
        | broken err _ => trivial
        | terminal err _ _ => trivial
        | fallback err _ _ => exact ⟨by simp [Op.isCall], trivial⟩
        | retry err _ _ again =>
            refine ⟨by simp [Op.isCall], ?_⟩
            rw [owedAfter_recordFailure]
            exact ih later again

theorem tryCandidate_waitsOut {attempts : List Attempt} {duration : Duration} {tr : Trace} {t : Tried}
    (covers : nanoseconds ≤ delay.toInt)
    (run : Runs (e.tryCandidate c req attempts duration) tr t) : WaitsOut delay nanoseconds tr := by
  have pays : Pays delay nanoseconds 0 tr := by
    obtain ⟨rfl, -⟩ | ⟨tr', rfl, loop⟩ := tryCandidate_cases run
    · exact ⟨by simp [Op.isCall], trivial⟩
    · exact ⟨by simp [Op.isCall], attemptLoop_pays covers (.inl (by simp [owedAfter, Op.isCall, refusal, slept])) loop⟩
  exact pays.waitsOut

theorem tryCandidateStream_waitsOut {attempts : List Attempt} {duration : Duration} {tr : Trace}
    {t : TriedStream} (covers : nanoseconds ≤ delay.toInt)
    (run : Runs (e.tryCandidateStream c req attempts duration) tr t) :
    WaitsOut delay nanoseconds tr := by
  have pays : Pays delay nanoseconds 0 tr := by
    obtain ⟨rfl, -⟩ | ⟨tr', rfl, loop⟩ := tryCandidateStream_cases run
    · exact ⟨by simp [Op.isCall], trivial⟩
    · exact ⟨by simp [Op.isCall], streamLoop_pays covers (.inl (by simp [owedAfter, Op.isCall, refusal, slept])) loop⟩
  exact pays.waitsOut

/-- Every visit of every engine waits out a failure with this Retry-After, streamed or not. -/
def VisitsWaitOut (delay : Duration) (nanoseconds : Int) : Prop :=
  ∀ (e : Engine) (c : Candidate) (req : CanonicalRequest) (attempts : List Attempt)
    (duration : Duration) (tr : Trace),
    (∀ t, Runs (e.tryCandidate c req attempts duration) tr t → WaitsOut delay nanoseconds tr) ∧
      ∀ t, Runs (e.tryCandidateStream c req attempts duration) tr t → WaitsOut delay nanoseconds tr

/-- A decimal Retry-After is neither shortened nor undercut exactly if its nanoseconds fit a
word. -/
theorem retryAfter_honoured_iff {until_ : String → Option Duration} {header : String} {secs : Int64}
    (parsed : atoi header = some secs) (nonneg : 0 ≤ secs) :
    (VisitsWaitOut (parseRetryAfter until_ header) (secs.toInt * 10 ^ 9) ∧
        secs.toInt * 10 ^ 9 ≤ (parseRetryAfter until_ header).toInt) ↔
      secs.toInt ≤ 9223372036 := by
  rw [← le_toInt_mul_second_iff nonneg, parseRetryAfter_of_atoi parsed nonneg]
  refine and_iff_right_of_imp ?_
  intro covers e c req attempts duration tr
  exact ⟨fun _ run => tryCandidate_waitsOut covers run,
    fun _ run => tryCandidateStream_waitsOut covers run⟩

theorem half_minute_honoured :
    atoi "30" = some 30 ∧ (0 : Int64) ≤ 30 ∧
      VisitsWaitOut (parseRetryAfter (fun _ => none) "30") (30 * 10 ^ 9) ∧
        30 * 10 ^ 9 ≤ (parseRetryAfter (fun _ => none) "30").toInt :=
  ⟨by decide, by decide,
    (retryAfter_honoured_iff (by decide : atoi "30" = some 30) (by decide)).mpr (by decide)⟩

/-- A provider that answers 429 and asks for 18446744074 seconds. -/
def throttled : CallError :=
  .api ⟨429, "slow down", parseRetryAfter (fun _ => none) "18446744074"⟩

/-- One visit with two attempts at it. -/
def throttledVisit : Trace × Tried :=
  exec (calm (fun _ => ⟨.error throttled, 0⟩) fun _ => ⟨[], none, 0⟩)
    ((Engine.uniform ⟨2, 200000000, 5000000000⟩).tryCandidate ⟨"a", "m", 1⟩ { model := "m", messages := [] } [] 0) []

/-- The second call comes after 290448384 ns. -/
theorem wait_of_centuries_undercut :
    atoi "18446744074" = some 18446744074 ∧ (0 : Int64) ≤ 18446744074 ∧
      Runs ((Engine.uniform ⟨2, 200000000, 5000000000⟩).tryCandidate ⟨"a", "m", 1⟩
        { model := "m", messages := [] } [] 0) throttledVisit.1 throttledVisit.2 ∧
      waited throttledVisit.1 = 290448384 ∧
      ¬ WaitsOut (parseRetryAfter (fun _ => none) "18446744074") (18446744074 * 10 ^ 9) throttledVisit.1 := by
  refine ⟨by decide, by decide, exec_runs _ _ _, by decide, ?_⟩
  intro waits
  have long := waits (throttledVisit.1.take 1) _ [_, _] _ (throttledVisit.1.drop 5) rfl rfl (by decide)
    (by decide) rfl
  revert long
  decide

end Engine
end Gateway.Retry
