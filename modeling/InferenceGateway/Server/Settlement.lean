import InferenceGateway.Server.Runs

/-! Settlement and billing agree. Every admitted request is settled by one Adjust call,
and the ledger bills what the buckets were charged, on every path through the handlers. -/
namespace Gateway.Server
open Gateway.Providers Gateway.Retry
open Interaction hiding Program.perform
open Interaction.Program hiding pure perform

/-- Execute as it happened inside a run, with its own trace and outcome. -/
def ExecutedIn (deps : ChatDeps) (tiers : List Tier) (req : CanonicalRequest) (tr : Trace) (etr : Retry.Trace)
    (out : Except Retry.Error Result) : Prop :=
  ∃ before after, tr = before ++ (etr.map Op.lift ++ after) ∧
    Runs (deps.engine.execute tiers req) etr (some out)

/-- ExecuteStream as it happened inside a run: its trace lists the callbacks with the
answers the handler gave them. -/
def StreamedIn (deps : ChatDeps) (tiers : List Tier) (req : CanonicalRequest) (tr : Trace) (etr : Retry.Trace)
    (out : Except StreamError StreamResult) : Prop :=
  ∃ ctx before str after s, tr = before ++ (str ++ after) ∧
    Runs (deps.engine.executeStream tiers req) etr (some out) ∧
    Handled (relay deps ctx) {} etr str s

/-- Prompt tokens and the tokens of every fragment handed to the callback. -/
def countedTokens (deps : ChatDeps) (req : CanonicalRequest) (etr : Retry.Trace) : Int64 :=
  deps.counter.countMessages req.messages +
    countDeltas deps.counter ((callbacks etr).map fun call => call.2.2)

/-- What a run has to charge, by the path it took. -/
inductive Charged (deps : ChatDeps) (tiers : List Tier) (req : CanonicalRequest) (tr : Trace) : Int64 → Prop
  | hit : cacheHits tr ≠ [] → Charged deps tiers req tr 0
  | failed {etr : Retry.Trace} {failure : Retry.Error} : cacheHits tr = [] →
      req.stream = false → ExecutedIn deps tiers req tr etr (.error failure) → Charged deps tiers req tr 0
  | completed {etr : Retry.Trace} {result : Result} {answer : CanonicalResponse} :
      cacheHits tr = [] → req.stream = false → ExecutedIn deps tiers req tr etr (.ok result) →
      result.response = some answer →
      Charged deps tiers req tr (answer.usage.promptTokens + answer.usage.completionTokens)
  | unserved {etr : Retry.Trace} {failure : StreamError} : cacheHits tr = [] →
      req.stream = true → StreamedIn deps tiers req tr etr (.error failure) → delivered etr = [] →
      Charged deps tiers req tr 0
  | broken {etr : Retry.Trace} {failure : StreamError} : cacheHits tr = [] →
      req.stream = true → StreamedIn deps tiers req tr etr (.error failure) → delivered etr ≠ [] →
      Charged deps tiers req tr (countedTokens deps req etr)
  | reported {etr : Retry.Trace} {result : StreamResult} {usage : Usage} : cacheHits tr = [] →
      req.stream = true → StreamedIn deps tiers req tr etr (.ok result) → result.usage = some usage →
      Charged deps tiers req tr (usage.promptTokens + usage.completionTokens)
  | counted {etr : Retry.Trace} {result : StreamResult} : cacheHits tr = [] →
      req.stream = true → StreamedIn deps tiers req tr etr (.ok result) → result.usage = none →
      Charged deps tiers req tr (countedTokens deps req etr)

/-- One Adjust call for the difference, and a ledger that bills the charge. -/
structure Settled (deps : ChatDeps) (scopes : RateLimit.Scopes) (cost charge : Int64) (tr : Trace) :
    Prop where
  adjusted : adjusts tr = [(scopes, cost - charge)]
  single : (records tr).length ≤ 1
  billed : deps.ledger = true → ((records tr).map Ledger.Entry.billed).sum = charge
  unrecorded : deps.ledger = false → records tr = []

theorem adjusts_append (tr₁ tr₂ : Trace) : adjusts (tr₁ ++ tr₂) = adjusts tr₁ ++ adjusts tr₂ :=
  List.filterMap_append

theorem records_append (tr₁ tr₂ : Trace) : records (tr₁ ++ tr₂) = records tr₁ ++ records tr₂ :=
  List.filterMap_append

theorem cacheHits_append (tr₁ tr₂ : Trace) :
    cacheHits (tr₁ ++ tr₂) = cacheHits tr₁ ++ cacheHits tr₂ := List.filterMap_append

theorem relay_of_lift (etr : Retry.Trace) : ∀ ev ∈ etr.map Op.lift, ev.1.isRelay := by
  intro ev member
  obtain ⟨inner, -, rfl⟩ := List.mem_map.mp member
  trivial

theorem cacheHits_of_relay {tr : Trace} (h : ∀ ev ∈ tr, ev.1.isRelay) : cacheHits tr = [] := by
  refine unobserved ?_ h
  intro op reply only
  cases op <;> first | rfl | exact only.elim

theorem cacheHits_of_ending {tr : Trace} (h : ∀ ev ∈ tr, ev.1.isEnding) : cacheHits tr = [] := by
  refine unobserved ?_ h
  intro op reply only
  cases op <;> first | rfl | exact only.elim

theorem rows_records (deps : ChatDeps) (entry : Ledger.Entry) :
    records (rows deps entry) = if deps.ledger then [entry] else [] := by
  unfold rows
  split <;> rfl

theorem rows_adjusts (deps : ChatDeps) (entry : Ledger.Entry) : adjusts (rows deps entry) = [] := by
  unfold rows
  split <;> rfl

/-- An Adjust call and a row for the same amount, with nothing else to settle around them. -/
theorem Settled.of_row {deps : ChatDeps} {scopes : RateLimit.Scopes} {cost charge delta : Int64}
    {tr : Trace} {entry : Ledger.Entry} (before middle after : Trace) (w : Option String)
    (shape : tr = before ++ ⟨.adjust scopes delta, w⟩ :: (middle ++ (rows deps entry ++ after)))
    (quiet : ∀ ev ∈ before, ev.1.isQuiet) (between : ∀ ev ∈ middle, ev.1.isQuiet)
    (later : ∀ ev ∈ after, ev.1.isQuiet) (net : delta = cost - charge)
    (same : entry.billed = charge) : Settled deps scopes cost charge tr := by
  have adjusted : adjusts tr = [(scopes, delta)] := by
    rw [shape, adjusts_append, adjusts_of_quiet quiet, List.nil_append]
    show (scopes, delta) :: adjusts (middle ++ (rows deps entry ++ after)) = _
    rw [adjusts_append, adjusts_append, adjusts_of_quiet between, adjusts_of_quiet later,
      rows_adjusts]
    rfl
  have recorded : records tr = if deps.ledger then [entry] else [] := by
    rw [shape, records_append, records_of_quiet quiet, List.nil_append]
    show records (middle ++ (rows deps entry ++ after)) = _
    rw [records_append, records_append, records_of_quiet between, records_of_quiet later,
      rows_records, List.nil_append, List.append_nil]
  refine ⟨by rw [adjusted, net], ?_, ?_, ?_⟩
  · rw [recorded]
    split <;> simp
  · intro present
    rw [recorded, if_pos present]
    simpa using same
  · intro absent
    rw [recorded, absent]
    rfl

/-- A full refund and no row. -/
theorem Settled.of_refund {deps : ChatDeps} {scopes : RateLimit.Scopes} {cost : Int64}
    {tr : Trace} (before after : Trace) (w : Option String)
    (shape : tr = before ++ ⟨.adjust scopes cost, w⟩ :: after)
    (quiet : ∀ ev ∈ before, ev.1.isQuiet) (later : ∀ ev ∈ after, ev.1.isQuiet) :
    Settled deps scopes cost 0 tr := by
  have adjusted : adjusts tr = [(scopes, cost)] := by
    rw [shape, adjusts_append, adjusts_of_quiet quiet, List.nil_append]
    show (scopes, cost) :: adjusts after = _
    rw [adjusts_of_quiet later]
  have recorded : records tr = [] := by
    rw [shape, records_append, records_of_quiet quiet]
    show records after = _
    rw [records_of_quiet later]
  refine ⟨?_, ?_, ?_, ?_⟩
  · rw [adjusted, Int64.sub_zero]
  · simp [recorded]
  · simp [recorded]
  · simp [recorded]

theorem quiet_nil : ∀ ev ∈ ([] : Trace), ev.1.isQuiet := by simp

theorem quiet_append {tr₁ tr₂ : Trace} (first : ∀ ev ∈ tr₁, ev.1.isQuiet)
    (second : ∀ ev ∈ tr₂, ev.1.isQuiet) : ∀ ev ∈ tr₁ ++ tr₂, ev.1.isQuiet := by
  intro ev member
  rcases List.mem_append.mp member with early | late
  · exact first ev early
  · exact second ev late

theorem quiet_cons {ev : Event Op Op.Reply} {tr : Trace} (first : ev.1.isQuiet)
    (rest : ∀ ev ∈ tr, ev.1.isQuiet) : ∀ ev' ∈ ev :: tr, ev'.1.isQuiet := by
  intro ev' member
  rcases List.mem_cons.mp member with rfl | later
  · exact first
  · exact rest ev' later

theorem quiet_of_report {tr : Trace} (h : ∀ ev ∈ tr, ev.1.isReport) : ∀ ev ∈ tr, ev.1.isQuiet :=
  fun ev member => (h ev member).quiet

theorem quiet_of_http {tr : Trace} (h : ∀ ev ∈ tr, ev.1.isHttp) : ∀ ev ∈ tr, ev.1.isQuiet :=
  fun ev member => (h ev member).quiet

section Paths
variable {deps : ChatDeps} {r : Request} {a : Admitted} {look own str tail : Trace}
  {w : Option String} {out : Ended}

theorem hit_settled {tier : CacheTier} {cached : CanonicalResponse}
    (looked : ∀ ev ∈ look, ev.1.isLookup) (quiet : ∀ ev ∈ own, ev.1.isQuiet)
    (finish : Runs (finishCacheHit deps r a.identity tier cached a.start) tail out) :
    out = .returned ∧ Settled deps a.scopes a.cost 0
      (look ++ ⟨.adjust a.scopes a.cost, w⟩ :: (own ++ tail)) := by
  obtain ⟨rfl, t, entry, free, rfl⟩ := finishCacheHit_cases finish
  have net : a.cost = a.cost - 0 := by rw [Int64.sub_zero]
  refine ⟨rfl, .of_row look (own ++ [⟨.now, t⟩]) [] w (by simp) ?_ ?_ quiet_nil net free⟩
  · exact fun ev member => (looked ev member).quiet
  · exact quiet_append quiet (quiet_cons trivial quiet_nil)

/-- The two endings of a failed stream. -/
theorem handleStreamError_settled {s : StreamState} {failure : StreamError}
    (quiet : ∀ ev ∈ str, ev.1.isQuiet) (h : Runs (handleStreamError deps r a s failure) tail out) :
    out = .returned ∧ Settled deps a.scopes a.cost
      (if failure.flushed then a.promptTokens + s.completionTokens else 0) (str ++ tail) := by
  cases hf : failure.flushed with
  | false =>
      obtain ⟨rfl, w, own, rfl, error⟩ := handleStreamError_unflushed hf h
      exact ⟨rfl, .of_refund str own w rfl quiet
        (quiet_of_report ((reportEngineError_within _ _ _).runs error))⟩
  | true =>
      obtain ⟨rfl, w, event, err, own, t, entry, billed, rfl, sent, push⟩ :=
        handleStreamError_flushed hf h
      refine ⟨rfl, .of_row str (event ++ (own ++ [⟨.now, t⟩])) [] w (by simp) quiet ?_ quiet_nil
        rfl billed⟩
      exact quiet_append (quiet_of_http ((writeSSEEvent_within _ _).runs sent))
        (quiet_append (quiet_of_http ((flushIf_within _).runs push)) (quiet_cons trivial quiet_nil))

theorem finishStream_settled {ctx : StreamContext} {lookup : CacheLookup} {s : StreamState}
    {result : StreamResult} (quiet : ∀ ev ∈ str, ev.1.isQuiet)
    (h : Runs (finishStream deps r a ctx lookup s result) tail out) :
    out = .returned ∧ Settled deps a.scopes a.cost
      ((streamUsage a s result.usage).promptTokens +
        (streamUsage a s result.usage).completionTokens) (str ++ tail) := by
  obtain ⟨rfl, done, err, own, w, t, entry, store, billed, rfl, sent, push, stored⟩ :=
    finishStream_cases h
  refine ⟨rfl, .of_row (str ++ (done ++ own)) [⟨.now, t⟩] store w (by simp) ?_ ?_ ?_ rfl billed⟩
  · exact quiet_append quiet (quiet_append (quiet_of_http ((write_within _).runs sent))
      (quiet_of_http ((flushIf_within _).runs push)))
  · exact quiet_cons trivial quiet_nil
  · exact fun ev member => ((storeInCaches_within _ _ _ _).runs stored ev member).quiet

theorem finishCompletion_settled {lookup : CacheLookup} {result : Result}
    {answer : CanonicalResponse} (answered : result.response = some answer)
    (quiet : ∀ ev ∈ str, ev.1.isQuiet)
    (h : Runs (finishCompletion deps r a lookup result) tail out) :
    out = .returned ∧ Settled deps a.scopes a.cost
      (answer.usage.promptTokens + answer.usage.completionTokens) (str ++ tail) := by
  obtain ⟨rfl, http, store, w, t, entry, billed, rfl, written, stored⟩ :=
    finishCompletion_cases answered h
  refine ⟨rfl, .of_row (str ++ (http ++ store)) [⟨.now, t⟩] [] w (by simp) ?_ ?_ quiet_nil rfl billed⟩
  · exact quiet_append quiet (quiet_append
      (quiet_of_http ((writeCompletion_within _ _ _ _).runs written))
      fun ev member => ((storeInCaches_within _ _ _ _).runs stored ev member).quiet)
  · exact quiet_cons trivial quiet_nil

end Paths

/-- A finished stream is charged the reported usage, or what was counted. -/
theorem streamUsage_charge (a : Admitted) (s : StreamState) (reported : Option Usage) :
    (streamUsage a s reported).promptTokens + (streamUsage a s reported).completionTokens =
      match reported with
      | some usage => usage.promptTokens + usage.completionTokens
      | none => a.promptTokens + s.completionTokens := by
  cases reported <;> rfl

/-- Either ending of a stream settles the charge its outcome calls for. -/
theorem endStream_settled {deps : ChatDeps} {r : Request} {a : Admitted} {ctx : StreamContext}
    {lookup : CacheLookup} {s : StreamState} {outcome : Except StreamError StreamResult}
    {etr : Retry.Trace} {tr str tail : Trace} {out : Ended}
    (prompt : a.promptTokens = deps.counter.countMessages a.req.messages)
    (streaming : a.req.stream = true) (unhit : cacheHits tr = [])
    (inside : StreamedIn deps a.tiers a.req tr etr outcome)
    (state : s = replay deps.counter ctx.canFlush (callbacks etr))
    (run : Runs (deps.engine.executeStream a.tiers a.req) etr (some outcome))
    (quiet : ∀ ev ∈ str, ev.1.isQuiet)
    (h : Runs (endStream deps r a ctx lookup s outcome) tail out) :
    out = .returned ∧ ∃ charge, Charged deps a.tiers a.req tr charge ∧
      Settled deps a.scopes a.cost charge (str ++ tail) := by
  have counted : a.promptTokens + s.completionTokens = countedTokens deps a.req etr := by
    rw [state, replay_completionTokens, prompt]
    rfl
  cases outcome with
  | error failure =>
      obtain ⟨rfl, settled⟩ := handleStreamError_settled quiet h
      obtain ⟨outcome, same, -, flushed, -⟩ := Engine.executeStreamFrom_unspliced run
      cases same
      have committed := flushed failure rfl
      refine ⟨rfl, ?_⟩
      cases hf : failure.flushed with
      | true =>
          refine ⟨_, .broken unhit streaming inside (committed.mp hf), ?_⟩
          rw [← counted]
          simpa [hf] using settled
      | false =>
          have nothing : delivered etr = [] := by simpa [hf] using committed
          exact ⟨0, .unserved unhit streaming inside nothing, by simpa [hf] using settled⟩
  | ok result =>
      obtain ⟨rfl, settled⟩ := finishStream_settled quiet h
      rw [streamUsage_charge] at settled
      refine ⟨rfl, ?_⟩
      cases hu : result.usage with
      | some usage =>
          exact ⟨_, .reported unhit streaming inside hu, by simpa [hu] using settled⟩
      | none =>
          refine ⟨_, .counted unhit streaming inside hu, ?_⟩
          rw [← counted]
          simpa [hu] using settled

theorem streaming_settles {deps : ChatDeps} {r : Request} {a : Admitted} {tr first : Trace}
    {out : Ended} (prompt : a.promptTokens = deps.counter.countMessages a.req.messages)
    (streaming : a.req.stream = true) (unhit : cacheHits first = [])
    (h : Runs (handleStreamingChatCompletion deps r a) tr out) :
    out = .returned ∧ ∃ charge, Charged deps a.tiers a.req (first ++ tr) charge ∧
      Settled deps a.scopes a.cost charge tr := by
  cases handleStreamingChatCompletion_cases h with
  | @hit look own tail cached tier lookup w out found served finish =>
      have looked := (checkCaches_within _ _ _).runs found
      have quiet := ((writeCachedStream_within _ _ _).mono fun _ => Op.isReplay.quiet).runs served
      obtain ⟨rfl, settled⟩ := hit_settled (w := w) looked quiet finish
      refine ⟨rfl, 0, .hit ?_, settled⟩
      simp [cacheHits_append, checkCaches_hits found]
  | @streamed look str tail etr suffix t lookup s outcome out found run handled finish =>
      have looked := (checkCaches_within _ _ _).runs found
      have miss : cacheHits look = [] := checkCaches_hits found
      have relayed := relayedRun_of_handled handled
      have missed : cacheHits (first ++ (look ++ ⟨.newRequestID, suffix⟩ :: ⟨.now, t⟩ ::
          (str ++ tail))) = [] := by
        rw [cacheHits_append, cacheHits_append, unhit, miss, List.nil_append, List.nil_append]
        show cacheHits (str ++ tail) = []
        rw [cacheHits_append, cacheHits_of_relay relayed.ops,
          cacheHits_of_ending ((endStream_within _ _ _ _ _ _ _).runs finish)]
        rfl
      have quiet : ∀ ev ∈ look ++ ⟨.newRequestID, suffix⟩ :: ⟨.now, t⟩ :: str, ev.1.isQuiet := by
        refine quiet_append (fun ev member => (looked ev member).quiet) ?_
        exact quiet_cons trivial (quiet_cons trivial fun ev member => (relayed.ops ev member).quiet)
      have inside : StreamedIn deps a.tiers a.req (first ++ (look ++ ⟨.newRequestID, suffix⟩ ::
          ⟨.now, t⟩ :: (str ++ tail))) etr outcome :=
        ⟨_, first ++ (look ++ [⟨.newRequestID, suffix⟩, ⟨.now, t⟩]), str, tail, s, by simp, run,
          handled⟩
      obtain ⟨rfl, charge, charged, settled⟩ := endStream_settled prompt streaming missed inside
        relayed.state run quiet finish
      exact ⟨rfl, charge, charged, by simpa using settled⟩

theorem completing_settles {deps : ChatDeps} {r : Request} {a : Admitted} {tr first : Trace}
    {out : Ended} (budget : 1 ≤ deps.engine.cfg.maxAttemptsPerProvider)
    (complete : a.req.stream = false) (unhit : cacheHits first = [])
    (h : Runs (completeChat deps r a) tr out) :
    out = .returned ∧ ∃ charge, Charged deps a.tiers a.req (first ++ tr) charge ∧
      Settled deps a.scopes a.cost charge tr := by
  have quiet : ∀ (etr : Retry.Trace) {look : Trace}, (∀ ev ∈ look, ev.1.isLookup) →
      ∀ ev ∈ look ++ etr.map Op.lift, ev.1.isQuiet := by
    intro etr look looked
    exact quiet_append (fun ev member => (looked ev member).quiet)
      fun ev member => (relay_of_lift etr ev member).quiet
  have missed : ∀ (etr : Retry.Trace) {look tail : Trace}, cacheHits look = [] →
      cacheHits tail = [] → cacheHits (first ++ (look ++ (etr.map Op.lift ++ tail))) = [] := by
    intro etr look tail miss ending
    rw [cacheHits_append, cacheHits_append, cacheHits_append, unhit, miss, ending,
      cacheHits_of_relay (relay_of_lift etr)]
    rfl
  cases completeChat_cases h with
  | @hit look own tail cached tier lookup w out found served finish =>
      have looked := (checkCaches_within _ _ _).runs found
      have quiet := ((writeCachedResponse_within _ _).mono fun _ => Op.isHttp.quiet).runs served
      obtain ⟨rfl, settled⟩ := hit_settled (w := w) looked quiet finish
      refine ⟨rfl, 0, .hit ?_, settled⟩
      simp [cacheHits_append, checkCaches_hits found]
  | @failed look own etr lookup failure w found run error =>
      have looked := (checkCaches_within _ _ _).runs found
      have miss : cacheHits look = [] := checkCaches_hits found
      have reported := (reportEngineError_within _ _ _).runs error
      have ending : cacheHits (⟨.adjust a.scopes a.cost, w⟩ :: own) = [] := by
        show cacheHits own = []
        exact cacheHits_of_ending fun ev member => (reported ev member).settling.ending
      have inside : ExecutedIn deps a.tiers a.req (first ++ (look ++ (etr.map Op.lift ++
          ⟨.adjust a.scopes a.cost, w⟩ :: own))) etr (.error failure) :=
        ⟨first ++ look, ⟨.adjust a.scopes a.cost, w⟩ :: own, by simp, run⟩
      refine ⟨rfl, 0, .failed (missed etr miss ending) complete inside, ?_⟩
      exact .of_refund (look ++ etr.map Op.lift) own w (by simp) (quiet etr looked)
        (quiet_of_report reported)
  | @finished look tail etr lookup result out found run finish =>
      have looked := (checkCaches_within _ _ _).runs found
      have miss : cacheHits look = [] := checkCaches_hits found
      have ending := cacheHits_of_ending ((finishCompletion_within _ _ _ _ _).runs finish)
      obtain ⟨outcome, same, answers⟩ := Engine.execute_returns run
      cases same
      obtain ⟨answer, answered⟩ := answers (Engine.budget_pos budget) result rfl
      obtain ⟨rfl, settled⟩ := finishCompletion_settled answered (quiet etr looked) finish
      have inside : ExecutedIn deps a.tiers a.req (first ++ (look ++ (etr.map Op.lift ++ tail))) etr
          (.ok result) := ⟨first ++ look, tail, by simp, run⟩
      exact ⟨rfl, _, .completed (missed etr miss ending) complete inside answered,
        by simpa using settled⟩

end Gateway.Server
