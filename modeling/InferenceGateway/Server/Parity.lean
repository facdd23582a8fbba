import InferenceGateway.Retry.Parity
import InferenceGateway.Server.Framing

/-! A failure before any delta, told with and without a stream. Status, message and refund
are the same; the attempts reach the client and the metric only without one, because the
error writer looks for one of the engine's two error types. -/
namespace Gateway.Server
open Gateway.Providers Gateway.Retry Http
open Interaction hiding Program.perform
open Interaction.Program hiding pure perform

/-- The request with its stream flag set. -/
def Request.streaming (r : Request) (stream : Bool) : Request :=
  { r with body := r.body.map fun req => { req with stream } }

def failureCount : Event Op Op.Reply → Option (Int × String)
  | ⟨.countFailure status provider, _⟩ => some (status, provider)
  | _ => none

/-- The failures a run counts, by status and provider label. -/
def failureCounts (tr : Trace) : List (Int × String) := tr.filterMap failureCount

def sentStatus (tr : Trace) : Option Int := (responseOf tr).committed.map Prod.fst

def sentHeader (tr : Trace) (name : String) : Option String :=
  (responseOf tr).committed.bind fun sent => sent.2 name

/-- The request was admitted, and no cache answered it. -/
structure Missed (tr : Trace) : Prop where
  admitted : admissions tr ≠ []
  unserved : cacheHits tr = []

/-- The client is told the same, and the limiter gets the same back. -/
structure SameVerdict (tr tr' : Trace) : Prop where
  status : sentStatus tr = sentStatus tr'
  message : (responseOf tr).body = (responseOf tr').body
  refund : adjusts tr = adjusts tr'

/-- Nothing tells the two failures apart. -/
structure SameFailure (tr tr' : Trace) : Prop extends SameVerdict tr tr' where
  attempts : sentHeader tr "X-Gateway-Attempts" = sentHeader tr' "X-Gateway-Attempts"
  counted : failureCounts tr = failureCounts tr'

/-- Operations that neither client nor limiter nor metric sees. -/
def Op.isSilent : Op → Prop
  | .http _ | .adjust _ _ | .countFailure _ _ => False
  | _ => True

section Silent
variable {tr : Trace} (h : ∀ ev ∈ tr, ev.1.isSilent)
include h

theorem httpCalls_of_silent : httpCalls tr = [] := by
  refine unobserved ?_ h
  intro op reply silent
  cases op <;> first | rfl | exact silent.elim

theorem adjusts_of_silent : adjusts tr = [] := by
  refine unobserved ?_ h
  intro op reply silent
  cases op <;> first | rfl | exact silent.elim

theorem failureCounts_of_silent : failureCounts tr = [] := by
  refine unobserved ?_ h
  intro op reply silent
  cases op <;> first | rfl | exact silent.elim

end Silent

theorem Op.isLookup.silent {o : Op} (h : o.isLookup) : o.isSilent := by
  cases o <;> trivial

theorem silent_of_lift (etr : Retry.Trace) : ∀ ev ∈ etr.map Op.lift, ev.1.isSilent := by
  intro ev member
  obtain ⟨inner, -, rfl⟩ := List.mem_map.mp member
  trivial

/-- A run that was silent until it gave the reservation back and reported the error. -/
inductive FailedRun (r : Request) (scopes : RateLimit.Scopes) (cost : Int64) (err : EngineError)
    (attempts : List Attempt) : Trace → Prop
  | mk {before own : Trace} {w : Option String} : (∀ ev ∈ before, ev.1.isSilent) →
      Runs (reportEngineError r err attempts) own () →
      FailedRun r scopes cost err attempts (before ++ ⟨.adjust scopes cost, w⟩ :: own)

namespace FailedRun
variable {r : Request} {scopes : RateLimit.Scopes} {cost : Int64} {err : EngineError}
  {attempts : List Attempt} {tr : Trace}

theorem preceded {before : Trace} (silent : ∀ ev ∈ before, ev.1.isSilent)
    (h : FailedRun r scopes cost err attempts tr) :
    FailedRun r scopes cost err attempts (before ++ tr) := by
  cases h with
  | mk still reported =>
      rw [← List.append_assoc]
      refine .mk (fun ev member => ?_) reported
      rcases List.mem_append.mp member with early | late
      · exact silent ev early
      · exact still ev late

/-- What the client, the limiter and the metric see of a failed run. -/
theorem observed (h : FailedRun r scopes cost err attempts tr) :
    httpCalls tr = httpCalls (attemptsHeader attempts) ++
      [.setHeader "Content-Type" "application/json", .writeHeader (engineStatus err),
        .write (encodeLine (errorPayload err.error r.requestID))] ∧
    adjusts tr = [(scopes, cost)] ∧
    failureCounts tr = [(engineStatus err, lastProvider attempts)] := by
  cases h with
  | @mk before own w silent reported =>
      obtain ⟨w', rfl⟩ := runs_reportEngineError reported
      have header : adjusts (attemptsHeader attempts) = [] ∧
          failureCounts (attemptsHeader attempts) = [] := by
        unfold attemptsHeader
        split <;> exact ⟨rfl, rfl⟩
      refine ⟨?_, ?_, ?_⟩
      · rw [httpCalls_append, httpCalls_of_silent silent]
        show httpCalls (attemptsHeader attempts ++ _) = _
        rw [httpCalls_append]
        rfl
      · rw [adjusts_append, adjusts_of_silent silent]
        show (scopes, cost) :: adjusts (attemptsHeader attempts ++ _) = _
        rw [adjusts_append, header.1]
        rfl
      · have silence := failureCounts_of_silent silent
        unfold failureCounts at silence header ⊢
        rw [List.filterMap_append, silence]
        show (attemptsHeader attempts ++ _).filterMap failureCount = _
        rw [List.filterMap_append, header.2]
        rfl

theorem response (h : FailedRun r scopes cost err attempts tr) :
    sentStatus tr = some (engineStatus err) ∧
    (responseOf tr).body = encodeLine (errorPayload err.error r.requestID) ∧
    sentHeader tr "X-Gateway-Attempts" =
      if attempts = [] then none else some (formatAttempts attempts) := by
  unfold sentStatus sentHeader responseOf
  rw [h.observed.1]
  unfold attemptsHeader
  split
  · refine ⟨rfl, ?_, ?_⟩ <;> simp [httpCalls, Response.applyAll, Response.apply, Response.commit]
  · refine ⟨rfl, ?_, ?_⟩ <;>
      simp [httpCalls, httpCall, Response.applyAll, Response.apply, Response.commit]

section Beside
variable {r' : Request} {tr' : Trace} (h : FailedRun r scopes cost err attempts tr)
  (h' : FailedRun r' scopes cost err [] tr') (traced : r.requestID = r'.requestID)
include h h' traced

theorem sameVerdict : SameVerdict tr tr' where
  status := h.response.1.trans h'.response.1.symm
  message := by rw [h.response.2.1, h'.response.2.1, traced]
  refund := h.observed.2.1.trans h'.observed.2.1.symm

/-- A failure told without its attempts looks the same exactly when there were none. -/
theorem sameFailure_iff : SameFailure tr tr' ↔ attempts = [] := by
  constructor
  · intro same
    have header := same.attempts
    rw [h.response.2.2, h'.response.2.2] at header
    by_contra tried
    rw [if_neg tried, if_pos rfl] at header
    cases header
  · rintro rfl
    exact ⟨h.sameVerdict h' traced, h.response.2.2.trans h'.response.2.2.symm,
      h.observed.2.2.trans h'.observed.2.2.symm⟩

end Beside
end FailedRun

theorem engineEvents_lift (etr : Retry.Trace) : engineEvents (etr.map Op.lift) = etr := by
  rw [engineEvents, List.filterMap_map]
  exact List.filterMap_some

/-- Without a hit the non-streaming branch is one Execute call, and its failure is told
with the attempts. -/
theorem completeChat_missed {deps : ChatDeps} {r : Request} {a : Admitted} {tr : Trace} {out : Ended}
    (run : Runs (completeChat deps r a) tr out) (miss : cacheHits tr = []) :
    ∃ outcome, Runs (deps.engine.execute a.tiers a.req) (engineEvents tr) (some outcome) ∧
      ∀ failure, outcome = .error failure →
        FailedRun r a.scopes a.cost failure.err failure.attempts tr := by
  cases completeChat_cases run with
  | hit found => simp [cacheHits_append, checkCaches_hits found] at miss
  | @failed look own etr lookup failure w found executed reported =>
      have looked := (checkCaches_within _ _ _).runs found
      have told := (reportEngineError_within _ _ _).runs reported
      have events : engineEvents (look ++ (etr.map Op.lift ++ ⟨.adjust a.scopes a.cost, w⟩ :: own)) =
          etr := by
        rw [engineEvents_append, engineEvents_of_lookup looked, engineEvents_append,
          engineEvents_lift]
        show etr ++ engineEvents own = etr
        rw [engineEvents_of_ending fun ev member => (told ev member).settling.ending, List.append_nil]
      refine ⟨.error failure, by rwa [events], ?_⟩
      rintro _ ⟨⟩
      exact .preceded (fun ev member => (looked ev member).silent)
        (.mk (silent_of_lift etr) reported)
  | @finished look tail etr lookup result _ found executed finish =>
      have looked := (checkCaches_within _ _ _).runs found
      have ending := (finishCompletion_within _ _ _ _ _).runs finish
      have events : engineEvents (look ++ (etr.map Op.lift ++ tail)) = etr := by
        rw [engineEvents_append, engineEvents_of_lookup looked, engineEvents_append,
          engineEvents_lift, engineEvents_of_ending ending, List.append_nil]
        rfl
      refine ⟨.ok result, by rwa [events], ?_⟩
      rintro _ ⟨⟩

/-- Without callbacks the handler of the stream writes nothing. -/
theorem handled_silent {deps : ChatDeps} {ctx : StreamContext} {s s' : StreamState}
    {etr : Retry.Trace} {str : Trace} (h : Handled (relay deps ctx) s etr str s')
    (quiet : ∀ ev ∈ etr, callback ev = none) : str = etr.map Op.lift := by
  induction h with
  | nil _ => rfl
  | @cons _ _ _ o reply _ _ _ first _ ih =>
      have other : ∀ name model d, o ≠ .onDelta name model d := by
        rintro name model d rfl
        cases quiet _ List.mem_cons_self
      rw [(relay_passes other first).1, ih fun ev member => quiet ev (List.mem_cons_of_mem _ member)]
      rfl

/-- Without a hit the streaming branch is one ExecuteStream call, and a failure that no
callback came before is told without the attempts. -/
theorem handleStreamingChatCompletion_missed {deps : ChatDeps} {r : Request} {a : Admitted} {tr : Trace}
    {out : Ended} (run : Runs (handleStreamingChatCompletion deps r a) tr out)
    (miss : cacheHits tr = []) :
    ∃ etr outcome, Runs (deps.engine.executeStream a.tiers a.req) etr (some outcome) ∧
      engineEvents tr = etr.filter (fun ev => (callback ev).isNone) ∧
      ∀ failure, outcome = .error failure → failure.flushed = false →
        (∀ ev ∈ etr, callback ev = none) → FailedRun r a.scopes a.cost failure.err [] tr := by
  cases handleStreamingChatCompletion_cases run with
  | hit found => simp [cacheHits_append, checkCaches_hits found] at miss
  | @streamed look str tail etr suffix t lookup s outcome _ found executed handled ending =>
      have looked := (checkCaches_within _ _ _).runs found
      have ends := (endStream_within _ _ _ _ _ _ _).runs ending
      refine ⟨etr, outcome, executed, ?_, ?_⟩
      · rw [engineEvents_append, engineEvents_of_lookup looked]
        show engineEvents (str ++ tail) = _
        rw [engineEvents_append, engineEvents_of_ending ends, List.append_nil,
          (relayedRun_of_handled handled).calls]
      · rintro failure rfl unflushed quiet
        obtain ⟨-, w, own, rfl, reported⟩ := handleStreamError_unflushed unflushed ending
        rw [handled_silent handled quiet]
        refine .preceded (fun ev member => (looked ev member).silent) ?_
        have stamped : ∀ ev ∈ ([⟨.newRequestID, suffix⟩, ⟨.now, t⟩] : Trace), ev.1.isSilent := by
          simp [Op.isSilent]
        exact .preceded stamped (.mk (silent_of_lift etr) reported)

/-- The stream flag plays no part in the checks. -/
theorem prepare_streaming (deps : ChatDeps) (r : Request) (stream : Bool) :
    prepare deps (r.streaming stream) =
      (prepare deps r).map fun p => { p with req := { p.req with stream } } := by
  unfold prepare Request.streaming
  cases r.body with
  | error err => rfl
  | ok req =>
      simp only [Except.map]
      split_ifs
      · rfl
      · rfl
      · cases resolveCacheTTLOverride deps.lib req.cacheTTL deps.cacheMaxClientTTL with
        | error err => rfl
        | ok ttlOverride =>
            cases deps.resolve req.model with
            | error err => rfl
            | ok tiers =>
                simp only
                split_ifs
                · rfl
                · cases r.identity <;> rfl

/-- A missed request reached the branch its flag names. -/
theorem Missed.branch {deps : ChatDeps} {r : Request} {stream : Bool} {tr : Trace} {out : Ended}
    (missed : Missed tr) (run : Runs (handleChatCompletions deps (r.streaming stream)) tr out) :
    ∃ start scopes cost reply p rest, prepare deps r = .ok p ∧
      tr = [⟨.now, start⟩, ⟨.reserve scopes cost, reply⟩] ++ rest ∧
      Runs ((if stream then handleStreamingChatCompletion else completeChat) deps (r.streaming stream)
        (afterReserve deps { p with req := { p.req with stream } } start)) rest out := by
  obtain ⟨⟨scopes, cost⟩, allowed⟩ := List.exists_mem_of_ne_nil _ missed.admitted
  obtain ⟨start, p, decision, rest, ready, -, -, rfl, -, branch⟩ := chat_admitted run allowed
  rw [prepare_streaming] at ready
  cases checked : prepare deps r with
  | error refusal => simp [checked, Except.map] at ready
  | ok q =>
      simp only [checked, Except.map, Except.ok.injEq] at ready
      subst ready
      refine ⟨start, scopes, cost, .ok decision, q, rest, rfl, rfl, ?_⟩
      rcases branch with ⟨flag, taken⟩ | ⟨flag, taken⟩
      · simp only at flag
        subst flag
        exact taken
      · simp only at flag
        subst flag
        exact taken

/-- Where every call fails alike before any delta, streaming changes neither the status nor
the message nor the refund. The whole failure is the same only if no provider was called:
otherwise the attempts header and the provider label are missing from the streamed one. -/
theorem streamed_failure_same_iff {deps : ChatDeps} {r : Request} {tr tr' : Trace} {out out' : Ended}
    (budget : 1 ≤ deps.engine.cfg.maxAttemptsPerProvider)
    (run : Runs (handleChatCompletions deps (r.streaming false)) tr out)
    (run' : Runs (handleChatCompletions deps (r.streaming true)) tr' out') (missed : Missed tr)
    (missed' : Missed tr') (alike : List.Forall₂ FailsAlike (engineEvents tr) (engineEvents tr')) :
    SameVerdict tr tr' ∧ (SameFailure tr tr' ↔ calls (engineEvents tr) = []) := by
  obtain ⟨start, scopes, cost, reply, p, rest, ready, rfl, taken⟩ := missed.branch run
  obtain ⟨start', scopes', cost', reply', p', rest', ready', rfl, taken'⟩ := missed'.branch run'
  cases ready.symm.trans ready'
  obtain ⟨outcome, executed, told⟩ := completeChat_missed taken missed.unserved
  obtain ⟨etr, outcome', streamed, events, told'⟩ :=
    handleStreamingChatCompletion_missed taken' missed'.unserved
  change List.Forall₂ FailsAlike (engineEvents rest) (engineEvents rest') at alike
  rw [events] at alike
  obtain ⟨⟨err, attempts, rfl, rfl⟩, quiet⟩ :=
    Engine.executeStream_fails budget executed streamed alike
  have silent (t : Int64) (scopes : RateLimit.Scopes) (cost : Int64)
      (reply : Except String RateLimit.Decision) :
      ∀ ev ∈ ([⟨.now, t⟩, ⟨.reserve scopes cost, reply⟩] : Trace), ev.1.isSilent := by
    simp [Op.isSilent]
  have failed := (told _ rfl).preceded (silent start scopes cost reply)
  have failed' := (told' _ rfl rfl quiet).preceded (silent start' scopes' cost' reply')
  refine ⟨failed.sameVerdict failed' rfl, ?_⟩
  change _ ↔ calls (engineEvents rest) = []
  rw [← Engine.execute_attempts budget executed]
  exact failed.sameFailure_iff failed' rfl

/-- The provider fails every call with a 503, if its breaker lets one through. -/
def downAlike (ready : Bool) : (o : Retry.Op) → o.Reply
  | .ready _ _ => ready
  | o => calm (fun _ => ⟨.error (.api { statusCode := 503, message := "down" }), 0⟩)
      (fun _ => ⟨[], some (.api { statusCode := 503, message := "down" }), 0⟩) [] o

/-- One request to that provider, with or without a stream. -/
def downAlikeRun (ready stream : Bool) : Trace × Ended :=
  exec (smooth (downAlike ready)) (handleChatCompletions oneProvider ((asked hello).streaming stream)) []

/-- With the breaker open no call is made, and the two failures are the same. -/
theorem open_breaker_failure_same :
    Missed (downAlikeRun false false).1 ∧ Missed (downAlikeRun false true).1 ∧
      List.Forall₂ FailsAlike (engineEvents (downAlikeRun false false).1)
        (engineEvents (downAlikeRun false true).1) ∧
      SameFailure (downAlikeRun false false).1 (downAlikeRun false true).1 := by
  have missed : Missed (downAlikeRun false false).1 := ⟨by decide +kernel, by decide +kernel⟩
  have missed' : Missed (downAlikeRun false true).1 := ⟨by decide +kernel, by decide +kernel⟩
  have alike : List.Forall₂ FailsAlike (engineEvents (downAlikeRun false false).1)
      (engineEvents (downAlikeRun false true).1) := .cons (.shared rfl) .nil
  have uncalled : calls (engineEvents (downAlikeRun false false).1) = [] := by decide +kernel
  exact ⟨missed, missed', alike, (streamed_failure_same_iff (by decide)
    (exec_runs _ _ _ : Runs _ (downAlikeRun false false).1 (downAlikeRun false false).2)
    (exec_runs _ _ _ : Runs _ (downAlikeRun false true).1 (downAlikeRun false true).2)
    missed missed' alike).2.mpr uncalled⟩

/-- One failed call: only the answer without a stream names it. -/
theorem one_call_failure_differs :
    Missed (downAlikeRun true false).1 ∧ Missed (downAlikeRun true true).1 ∧
      List.Forall₂ FailsAlike (engineEvents (downAlikeRun true false).1)
        (engineEvents (downAlikeRun true true).1) ∧
      sentHeader (downAlikeRun true false).1 "X-Gateway-Attempts" = some "primary:503" ∧
      sentHeader (downAlikeRun true true).1 "X-Gateway-Attempts" = none ∧
      failureCounts (downAlikeRun true false).1 = [(503, "primary")] ∧
      failureCounts (downAlikeRun true true).1 = [(503, "")] ∧
      ¬ SameFailure (downAlikeRun true false).1 (downAlikeRun true true).1 := by
  have named : sentHeader (downAlikeRun true false).1 "X-Gateway-Attempts" = some "primary:503" := by
    decide +kernel
  have unnamed : sentHeader (downAlikeRun true true).1 "X-Gateway-Attempts" = none := by
    decide +kernel
  refine ⟨⟨by decide +kernel, by decide +kernel⟩, ⟨by decide +kernel, by decide +kernel⟩, ?_, named,
    unnamed, by decide +kernel, by decide +kernel, ?_⟩
  · exact .cons (.shared rfl) (.cons (.shared rfl) (.cons (.shared rfl)
      (.cons .call (.cons (.shared rfl) (.cons (.shared rfl) .nil)))))
  · intro same
    have header := same.attempts
    rw [named, unnamed] at header
    cases header

end Gateway.Server
