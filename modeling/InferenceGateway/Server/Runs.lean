import InferenceGateway.Server.Steps

/-! Whole runs of the chat handlers, cut at the points where they decide: the lookup, the
engine call with the callback inside it, and the ending each outcome leads to. -/
namespace Gateway.Server
open Gateway.Providers Gateway.Retry
open Interaction hiding Program.perform
open Interaction.Program hiding pure perform

/-- The state after a sequence of callbacks. The headers are out after the first one, if
they can be sent at all. -/
def replay (counter : Tokenizer.Counter) (canFlush : Bool) (calls : List (String × String × Delta)) :
    StreamState :=
  calls.foldl (fun s call =>
    { s.receive counter call.1 call.2.1 call.2.2 with headersSent := s.headersSent || canFlush }) {}

theorem replay_append_single (counter : Tokenizer.Counter) (canFlush : Bool)
    (calls : List (String × String × Delta)) (call : String × String × Delta) :
    replay counter canFlush (calls ++ [call]) =
      { (replay counter canFlush calls).receive counter call.1 call.2.1 call.2.2 with
        headersSent := (replay counter canFlush calls).headersSent || canFlush } := by
  unfold replay
  rw [List.foldl_append]
  rfl

/-- The tokens of a sequence of fragments, counted one by one. -/
def countDeltas (counter : Tokenizer.Counter) (ds : List Delta) : Int64 :=
  ds.foldl (fun total d =>
    if d.content ≠ "" then total + counter.countText d.content else total) 0

theorem replay_completionTokens (counter : Tokenizer.Counter) (canFlush : Bool)
    (calls : List (String × String × Delta)) :
    (replay counter canFlush calls).completionTokens =
      countDeltas counter (calls.map fun call => call.2.2) := by
  induction calls using List.reverseRecOn with
  | nil => rfl
  | append_singleton calls call ih =>
      rw [replay_append_single]
      simp only [StreamState.receive, ih, countDeltas, List.map_append, List.foldl_append,
        List.map_cons, List.map_nil, List.foldl_cons, List.foldl_nil]

/-- One callback: refused for want of a flusher, or one chunk, after the headers if they
are not out yet. -/
theorem onDelta_cases {deps : ChatDeps} {ctx : StreamContext} {s s' : StreamState}
    {providerName model : String} {d : Delta} {tr : Trace} {failed : Option CallError}
    (h : Runs (onDelta deps ctx s providerName model d) tr (failed, s')) :
    s' = { s.receive deps.counter providerName model d with
        headersSent := s.headersSent || ctx.canFlush } ∧
      ((s.headersSent = false ∧ ctx.canFlush = false ∧ tr = [] ∧ failed ≠ none) ∨
        (s.headersSent = true ∧ Runs (sendChunk ctx d) tr failed) ∨
        (s.headersSent = false ∧ ctx.canFlush = true ∧ ∃ head own, tr = head ++ own ∧
          Runs (commitStream deps ctx providerName) head () ∧ Runs (sendChunk ctx d) own failed)) := by
  have kept : (s.receive deps.counter providerName model d).headersSent = s.headersSent := rfl
  unfold onDelta at h
  simp only [kept] at h
  cases sent : s.headersSent with
  | true =>
      simp only [sent, if_true] at h
      obtain ⟨own, reply, rest, rfl, chunk, last⟩ := runs_bind.mp h
      obtain ⟨rfl, same⟩ := runs_pure.mp last
      cases same
      refine ⟨?_, .inr (.inl ⟨rfl, by simpa using chunk⟩)⟩
      simp [StreamState.receive, sent]
  | false =>
      simp only [sent, Bool.false_eq_true, if_false] at h
      cases able : ctx.canFlush with
      | false =>
          simp only [able, Bool.not_false, if_true] at h
          obtain ⟨rfl, same⟩ := runs_pure.mp h
          cases same
          refine ⟨?_, .inl ⟨rfl, rfl, rfl, by simp⟩⟩
          simp [StreamState.receive, sent]
      | true =>
          simp only [able, Bool.not_true, Bool.false_eq_true, if_false] at h
          obtain ⟨head, u, rest, rfl, commit, later⟩ := runs_bind.mp h
          obtain ⟨own, reply, tail, rfl, chunk, last⟩ := runs_bind.mp later
          obtain ⟨rfl, same⟩ := runs_pure.mp last
          cases same
          refine ⟨by simp, .inr (.inr ⟨rfl, rfl, head, own, by simp, commit, chunk⟩)⟩

/-- Every operation but the callback is passed on as it is. -/
theorem relay_passes {deps : ChatDeps} {ctx : StreamContext} {s s' : StreamState} {o : Retry.Op}
    {reply : o.Reply} {tr : Trace} (other : ∀ name model d, o ≠ .onDelta name model d)
    (h : Runs (relay deps ctx s o) tr (reply, s')) : tr = [⟨.engine o, reply⟩] ∧ s' = s := by
  have passed : Runs (perform (.engine o) >>= fun reply => pure (reply, s)) tr (reply, s') := by
    cases o with
    | onDelta name model d => exact absurd rfl (other name model d)
    | _ => exact h
  obtain ⟨r, tr', rfl, rest⟩ := runs_perform_bind.mp passed
  obtain ⟨rfl, same⟩ := runs_pure.mp rest
  cases same
  exact ⟨rfl, rfl⟩

def Op.lift (ev : Event Retry.Op Retry.Op.Reply) : Event Op Op.Reply := ⟨.engine ev.1, ev.2⟩

theorem relay_within (deps : ChatDeps) (ctx : StreamContext) (s : StreamState) (o : Retry.Op) :
    Within Op.isRelay (relay deps ctx s o) := by
  cases o with
  | onDelta name model d => exact (onDelta_within deps ctx s name model d).mono fun _ => Op.isHttp.relay
  | _ => exact .bind (.perform trivial) fun _ => .pure _

theorem direct_handled (etr : Retry.Trace) : Handled direct () etr (etr.map Op.lift) () := by
  induction etr with
  | nil => exact .nil ()
  | cons ev etr ih =>
      have passed : Runs (direct () ev.1) [Op.lift ev] (ev.2, ()) :=
        runs_perform_bind.mpr ⟨ev.2, [], rfl, .pure (ev.2, ())⟩
      exact .cons passed ih

theorem handled_direct {etr : Retry.Trace} {tr : Trace} {u u' : Unit}
    (h : Handled direct u etr tr u') : tr = etr.map Op.lift := by
  induction h with
  | nil _ => rfl
  | cons first _ ih =>
      obtain ⟨reply, tr', rfl, rest⟩ := runs_perform_bind.mp first
      obtain ⟨rfl, same⟩ := runs_pure.mp rest
      cases same
      rw [List.map_cons, ih]
      rfl

/-- What a handled ExecuteStream leaves behind, as far as its own trace determines it. -/
structure RelayedRun (deps : ChatDeps) (ctx : StreamContext) (etr : Retry.Trace) (str : Trace)
    (s : StreamState) : Prop where
  state : s = replay deps.counter ctx.canFlush (callbacks etr)
  calls : engineEvents str = etr.filter fun ev => (callback ev).isNone
  ops : ∀ ev ∈ str, ev.1.isRelay

theorem relayedRun_of_handled {deps : ChatDeps} {ctx : StreamContext} {etr : Retry.Trace}
    {str : Trace} {s : StreamState} (h : Handled (relay deps ctx) {} etr str s) :
    RelayedRun deps ctx etr str s := by
  have start : RelayedRun deps ctx [] [] {} := ⟨rfl, rfl, by simp⟩
  apply h.invariant start
  rintro done past s ⟨o, reply⟩ own s' ⟨state, calls, ops⟩ run
  have extend : (∀ ev ∈ own, ev.1.isRelay) → ∀ ev ∈ past ++ own, ev.1.isRelay := by
    intro fine ev member
    rcases List.mem_append.mp member with early | late
    · exact ops ev early
    · exact fine ev late
  by_cases other : ∀ name model d, o ≠ .onDelta name model d
  · obtain ⟨rfl, rfl⟩ := relay_passes other run
    have silent : callback ⟨o, reply⟩ = none := by
      cases o with
      | onDelta name model d => exact absurd rfl (other name model d)
      | _ => rfl
    refine ⟨?_, ?_, extend (by simp [Op.isRelay])⟩
    · rw [callbacks_append, state]
      simp [callbacks, silent]
    · have passed : engineEvents [⟨.engine o, reply⟩] = [⟨o, reply⟩] := rfl
      rw [engineEvents, List.filterMap_append, List.filter_append]
      rw [engineEvents] at calls passed
      rw [calls, passed]
      simp [silent]
  · simp only [not_forall, not_not] at other
    obtain ⟨name, model, d, rfl⟩ := other
    have http := (onDelta_within deps ctx s name model d).runs run
    refine ⟨?_, ?_, extend fun ev member => (http ev member).relay⟩
    · rw [callbacks_append, (onDelta_cases run).1, state]
      exact (replay_append_single _ _ _ (name, model, d)).symm
    · have nothing : engineEvents own = [] := by
        refine unobserved ?_ http
        intro op reply only
        cases op <;> first | rfl | exact only.elim
      rw [engineEvents, List.filterMap_append, List.filter_append]
      rw [engineEvents] at calls nothing
      rw [calls, nothing]
      simp [callback]

/-- The row an observer leaves: none without a ledger. -/
def rows (deps : ChatDeps) (entry : Ledger.Entry) : Trace :=
  if deps.ledger then [⟨.record entry, ()⟩] else []

theorem recordCacheHitObservability_billed {deps : ChatDeps} {r : Request} {identity : Auth.Identity}
    {tier : CacheTier} {cached : CanonicalResponse} {elapsed : Duration} {tr : Trace} {u : Unit}
    (h : Runs (recordCacheHitObservability deps r identity tier cached elapsed) tr u) :
    ∃ entry : Ledger.Entry, entry.billed = 0 ∧ tr = rows deps entry := ⟨_, rfl, runs_record h⟩

theorem recordSuccessObservability_billed {deps : ChatDeps} {r : Request} {identity : Auth.Identity}
    {provider model : String} {usage : Usage} {attempts : Nat} {elapsed : Duration} {tr : Trace}
    {u : Unit}
    (h : Runs (recordSuccessObservability deps r identity provider model usage attempts elapsed) tr u) :
    ∃ entry : Ledger.Entry, entry.billed = usage.promptTokens + usage.completionTokens ∧
      tr = rows deps entry := ⟨_, rfl, runs_record h⟩

theorem recordPartialStreamObservability_billed {deps : ChatDeps} {r : Request}
    {identity : Auth.Identity} {provider model : String} {promptTokens completionTokens : Int64}
    {elapsed : Duration} {tr : Trace} {u : Unit}
    (h : Runs (recordPartialStreamObservability deps r identity provider model promptTokens
      completionTokens elapsed) tr u) :
    ∃ entry : Ledger.Entry, entry.billed = promptTokens + completionTokens ∧
      tr = rows deps entry := ⟨_, rfl, runs_record h⟩

theorem finishCacheHit_cases {deps : ChatDeps} {r : Request} {identity : Auth.Identity}
    {tier : CacheTier} {cached : CanonicalResponse} {start : Int64} {tr : Trace} {out : Ended}
    (h : Runs (finishCacheHit deps r identity tier cached start) tr out) :
    out = .returned ∧ ∃ t entry, Ledger.Entry.billed entry = 0 ∧
      tr = ⟨.now, t⟩ :: rows deps entry := by
  obtain ⟨clock, elapsed, rest, rfl, read, noted⟩ := runs_bind.mp h
  obtain ⟨t, rfl⟩ := runs_since read
  obtain ⟨own, u, last, rfl, row, done⟩ := runs_bind.mp noted
  obtain ⟨rfl, rfl⟩ := runs_pure.mp done
  obtain ⟨entry, free, rfl⟩ := recordCacheHitObservability_billed row
  exact ⟨rfl, t, entry, free, by rw [List.append_nil]; rfl⟩

def attemptsHeader (attempts : List Attempt) : Trace :=
  if attempts = [] then []
  else [⟨.http (.setHeader "X-Gateway-Attempts" (formatAttempts attempts)), ()⟩]

/-- How a failure of the engine is answered and counted. -/
theorem runs_reportEngineError {r : Request} {err : EngineError} {attempts : List Attempt} {tr : Trace}
    {u : Unit} (h : Runs (reportEngineError r err attempts) tr u) :
    ∃ w, tr = attemptsHeader attempts ++
      [⟨.http (.setHeader "Content-Type" "application/json"), ()⟩,
        ⟨.http (.writeHeader (engineStatus err)), ()⟩,
        ⟨.http (.write (encodeLine (errorPayload err.error r.requestID))), w⟩,
        ⟨.countFailure (engineStatus err) (lastProvider attempts), ()⟩] := by
  obtain ⟨written, returned, counted, rfl, error, count⟩ := runs_bind.mp h
  obtain ⟨head, u, rest, rfl, header, json⟩ := runs_bind.mp error
  obtain ⟨body, u, last, rfl, payload, done⟩ := runs_bind.mp json
  obtain ⟨rfl, rfl⟩ := runs_pure.mp done
  obtain ⟨-, _, rfl, typed⟩ := runs_perform_bind.mp payload
  obtain ⟨-, _, rfl, status⟩ := runs_perform_bind.mp typed
  obtain ⟨w, _, rfl, ended⟩ := runs_perform_bind.mp status
  obtain ⟨rfl, -⟩ := runs_pure.mp ended
  refine ⟨w, ?_⟩
  rw [runs_perform.mp count]
  have first : head = attemptsHeader attempts := by
    unfold setAttemptsHeader at header
    unfold attemptsHeader
    split at header
    · rw [if_pos (by assumption)]
      exact (runs_pure.mp header).1
    · rw [if_neg (by assumption)]
      exact runs_perform.mp header
  rw [first, List.append_assoc]
  rfl

/-- A stream that failed before content is refunded and answered with a JSON error. -/
theorem handleStreamError_unflushed {deps : ChatDeps} {r : Request} {a : Admitted}
    {s : StreamState} {failure : StreamError} {tr : Trace} {out : Ended}
    (unflushed : failure.flushed = false) (h : Runs (handleStreamError deps r a s failure) tr out) :
    out = .returned ∧ ∃ w own, tr = ⟨.adjust a.scopes a.cost, w⟩ :: own ∧
      Runs (reportEngineError r failure.err []) own () := by
  simp only [handleStreamError, unflushed, Bool.not_false, if_true] at h
  obtain ⟨w, rest, rfl, written⟩ := runs_perform_bind.mp h
  obtain ⟨own, u, last, rfl, error, done⟩ := runs_bind.mp written
  obtain ⟨rfl, rfl⟩ := runs_pure.mp done
  exact ⟨rfl, w, own, by rw [List.append_nil], error⟩

/-- A stream that failed after content is charged for it and ended with an error event. -/
theorem handleStreamError_flushed {deps : ChatDeps} {r : Request} {a : Admitted}
    {s : StreamState} {failure : StreamError} {tr : Trace} {out : Ended}
    (flushed : failure.flushed = true) (h : Runs (handleStreamError deps r a s failure) tr out) :
    out = .returned ∧ ∃ w event err own t entry,
      Ledger.Entry.billed entry = a.promptTokens + s.completionTokens ∧
      tr = ⟨.adjust a.scopes (a.cost - (a.promptTokens + s.completionTokens)), w⟩ ::
        (event ++ (own ++ ⟨.now, t⟩ :: rows deps entry)) ∧
      Runs (writeSSEEvent "error" (errorPayload failure.err.error r.requestID)) event err ∧
      Runs (flushIf r.canFlush) own () := by
  simp only [handleStreamError, flushed, Bool.not_true, Bool.false_eq_true, if_false] at h
  obtain ⟨w, rest, rfl, written⟩ := runs_perform_bind.mp h
  obtain ⟨event, err, rest, rfl, sent, pushed⟩ := runs_bind.mp written
  obtain ⟨own, u, rest, rfl, push, timed⟩ := runs_bind.mp pushed
  obtain ⟨clock, elapsed, rest, rfl, read, noted⟩ := runs_bind.mp timed
  obtain ⟨t, rfl⟩ := runs_since read
  obtain ⟨row, u, last, rfl, kept, done⟩ := runs_bind.mp noted
  obtain ⟨rfl, rfl⟩ := runs_pure.mp done
  obtain ⟨entry, billed, rfl⟩ := recordPartialStreamObservability_billed kept
  exact ⟨rfl, w, event, err, own, t, entry, billed, by rw [List.append_nil]; rfl, sent, push⟩

/-- The response a completed stream is cached as. -/
def streamedResponse (a : Admitted) (ctx : StreamContext) (s : StreamState) (usage : Usage) :
    CanonicalResponse where
  id := ctx.id
  object := "chat.completion"
  created := ctx.created
  model := a.req.model
  choices := [⟨0, ⟨"assistant", s.fullContent⟩, if s.finishReason = "" then "stop" else s.finishReason⟩]
  usage := usage

theorem finishStream_cases {deps : ChatDeps} {r : Request} {a : Admitted} {ctx : StreamContext}
    {lookup : CacheLookup} {s : StreamState} {result : StreamResult} {tr : Trace} {out : Ended}
    (h : Runs (finishStream deps r a ctx lookup s result) tr out) :
    let usage := streamUsage a s result.usage
    out = .returned ∧ ∃ done err own w t entry store,
      Ledger.Entry.billed entry = usage.promptTokens + usage.completionTokens ∧
      tr = done ++ (own ++ ⟨.adjust a.scopes
        (a.cost - (usage.promptTokens + usage.completionTokens)), w⟩ :: ⟨.now, t⟩ ::
          (rows deps entry ++ store)) ∧
      Runs writeSSEDone done err ∧ Runs (flushIf ctx.canFlush) own () ∧
      Runs (storeInCaches deps lookup (streamedResponse a ctx s usage) a.ttlOverride) store () := by
  intro usage
  obtain ⟨done, err, rest, rfl, sent, pushed⟩ := runs_bind.mp h
  obtain ⟨own, u, rest, rfl, push, settled⟩ := runs_bind.mp pushed
  obtain ⟨w, rest, rfl, timed⟩ := runs_perform_bind.mp settled
  obtain ⟨clock, elapsed, rest, rfl, read, noted⟩ := runs_bind.mp timed
  obtain ⟨t, rfl⟩ := runs_since read
  obtain ⟨row, u, rest, rfl, kept, cached⟩ := runs_bind.mp noted
  obtain ⟨store, u, last, rfl, stored, ended⟩ := runs_bind.mp cached
  obtain ⟨rfl, rfl⟩ := runs_pure.mp ended
  obtain ⟨entry, billed, rfl⟩ := recordSuccessObservability_billed kept
  exact ⟨rfl, done, err, own, w, t, entry, store, billed, by rw [List.append_nil]; rfl, sent, push,
    stored⟩

theorem finishCompletion_cases {deps : ChatDeps} {r : Request} {a : Admitted}
    {lookup : CacheLookup} {result : Result} {answer : CanonicalResponse} {tr : Trace} {out : Ended}
    (answered : result.response = some answer)
    (h : Runs (finishCompletion deps r a lookup result) tr out) :
    out = .returned ∧ ∃ http store w t entry,
      Ledger.Entry.billed entry = answer.usage.promptTokens + answer.usage.completionTokens ∧
      tr = http ++ (store ++ ⟨.adjust a.scopes (a.cost -
        (answer.usage.promptTokens + answer.usage.completionTokens)), w⟩ :: ⟨.now, t⟩ ::
          rows deps entry) ∧
      Runs (writeCompletion deps a result { answer with model := a.req.model }) http () ∧
      Runs (storeInCaches deps lookup { answer with model := a.req.model } a.ttlOverride)
        store () := by
  simp only [finishCompletion, answered] at h
  obtain ⟨http, u, rest, rfl, written, cached⟩ := runs_bind.mp h
  obtain ⟨store, u, rest, rfl, stored, settled⟩ := runs_bind.mp cached
  obtain ⟨w, rest, rfl, timed⟩ := runs_perform_bind.mp settled
  obtain ⟨clock, elapsed, rest, rfl, read, noted⟩ := runs_bind.mp timed
  obtain ⟨t, rfl⟩ := runs_since read
  obtain ⟨row, u, last, rfl, kept, done⟩ := runs_bind.mp noted
  obtain ⟨rfl, rfl⟩ := runs_pure.mp done
  obtain ⟨entry, billed, rfl⟩ := recordSuccessObservability_billed kept
  exact ⟨rfl, http, store, w, t, entry, billed, by rw [List.append_nil]; rfl, written, stored⟩

/-- What the streaming handler does with the engine's answer. -/
def endStream (deps : ChatDeps) (r : Request) (a : Admitted) (ctx : StreamContext)
    (lookup : CacheLookup) (s : StreamState) : Except StreamError StreamResult → ServerM Ended
  | .error failure => handleStreamError deps r a s failure
  | .ok result => finishStream deps r a ctx lookup s result

theorem endStream_within (deps : ChatDeps) (r : Request) (a : Admitted) (ctx : StreamContext)
    (lookup : CacheLookup) (s : StreamState) (outcome : Except StreamError StreamResult) :
    Within Op.isEnding (endStream deps r a ctx lookup s outcome) := by
  cases outcome with
  | error failure => exact (handleStreamError_within _ _ _ _ _).mono fun _ => Op.isSettling.ending
  | ok result => exact finishStream_within _ _ _ _ _ _ _

/-- The ways a run of the streaming handler goes. -/
inductive StreamingRun (deps : ChatDeps) (r : Request) (a : Admitted) : Trace → Ended → Prop
  | hit {look own tail : Trace} {cached : CanonicalResponse} {tier : CacheTier}
      {lookup : CacheLookup} {w : Option String} {out : Ended} :
      Runs (checkCaches deps a.req a.identity) look (some (cached, tier), lookup) →
      Runs (writeCachedStream r tier cached) own () →
      Runs (finishCacheHit deps r a.identity tier cached a.start) tail out →
      StreamingRun deps r a (look ++ ⟨.adjust a.scopes a.cost, w⟩ :: (own ++ tail)) out
  | streamed {look str tail : Trace} {etr : Retry.Trace} {suffix : String} {t : Int64}
      {lookup : CacheLookup} {s : StreamState} {outcome : Except StreamError StreamResult}
      {out : Ended} : Runs (checkCaches deps a.req a.identity) look (none, lookup) →
      Runs (deps.engine.executeStream a.tiers a.req) etr (some outcome) →
      Handled (relay deps (streamContext r a suffix t)) {} etr str s →
      Runs (endStream deps r a (streamContext r a suffix t) lookup s outcome) tail out →
      StreamingRun deps r a (look ++ ⟨.newRequestID, suffix⟩ :: ⟨.now, t⟩ :: (str ++ tail)) out

theorem handleStreamingChatCompletion_cases {deps : ChatDeps} {r : Request} {a : Admitted}
    {tr : Trace} {out : Ended} (h : Runs (handleStreamingChatCompletion deps r a) tr out) :
    StreamingRun deps r a tr out := by
  obtain ⟨look, found, rest, rfl, lookup, chosen⟩ := runs_bind.mp h
  obtain ⟨hit, found⟩ := found
  cases hit with
  | some hit =>
      obtain ⟨w, rest', rfl, written⟩ := runs_perform_bind.mp chosen
      obtain ⟨own, u, tail, rfl, cached, finish⟩ := runs_bind.mp written
      exact .hit lookup cached finish
  | none =>
      obtain ⟨suffix, rest', rfl, timed⟩ := runs_perform_bind.mp chosen
      obtain ⟨t, rest'', rfl, called⟩ := runs_perform_bind.mp timed
      obtain ⟨str, ⟨streamed, s⟩, tail, rfl, engine, finish⟩ := runs_bind.mp called
      obtain ⟨etr, run, handled⟩ := runs_handle.mp engine
      obtain ⟨outcome, rfl, -⟩ := Engine.executeStreamFrom_unspliced run
      have ending : Runs (endStream deps r a (streamContext r a suffix t) found s outcome) tail
          out := by
        cases outcome <;> exact finish
      exact .streamed lookup run handled ending

/-- The ways a run of the non-streaming branch goes. -/
inductive CompletingRun (deps : ChatDeps) (r : Request) (a : Admitted) : Trace → Ended → Prop
  | hit {look own tail : Trace} {cached : CanonicalResponse} {tier : CacheTier}
      {lookup : CacheLookup} {w : Option String} {out : Ended} :
      Runs (checkCaches deps a.req a.identity) look (some (cached, tier), lookup) →
      Runs (writeCachedResponse tier cached) own () →
      Runs (finishCacheHit deps r a.identity tier cached a.start) tail out →
      CompletingRun deps r a (look ++ ⟨.adjust a.scopes a.cost, w⟩ :: (own ++ tail)) out
  | failed {look own : Trace} {etr : Retry.Trace} {lookup : CacheLookup} {failure : Retry.Error}
      {w : Option String} : Runs (checkCaches deps a.req a.identity) look (none, lookup) →
      Runs (deps.engine.execute a.tiers a.req) etr (some (.error failure)) →
      Runs (reportEngineError r failure.err failure.attempts) own () →
      CompletingRun deps r a
        (look ++ (etr.map Op.lift ++ ⟨.adjust a.scopes a.cost, w⟩ :: own)) .returned
  | finished {look tail : Trace} {etr : Retry.Trace} {lookup : CacheLookup} {result : Result}
      {out : Ended} : Runs (checkCaches deps a.req a.identity) look (none, lookup) →
      Runs (deps.engine.execute a.tiers a.req) etr (some (.ok result)) →
      Runs (finishCompletion deps r a lookup result) tail out →
      CompletingRun deps r a (look ++ (etr.map Op.lift ++ tail)) out

theorem completeChat_cases {deps : ChatDeps} {r : Request} {a : Admitted} {tr : Trace} {out : Ended}
    (h : Runs (completeChat deps r a) tr out) : CompletingRun deps r a tr out := by
  obtain ⟨look, found, rest, rfl, lookup, chosen⟩ := runs_bind.mp h
  obtain ⟨hit, found⟩ := found
  cases hit with
  | some hit =>
      obtain ⟨w, rest', rfl, written⟩ := runs_perform_bind.mp chosen
      obtain ⟨own, u, tail, rfl, cached, finish⟩ := runs_bind.mp written
      exact .hit lookup cached finish
  | none =>
      obtain ⟨str, ⟨executed, s⟩, tail, rfl, engine, finish⟩ := runs_bind.mp chosen
      obtain ⟨etr, run, handled⟩ := runs_handle.mp engine
      rw [handled_direct handled]
      obtain ⟨outcome, rfl, -⟩ := Engine.execute_returns run
      cases outcome with
      | error failure =>
          obtain ⟨w, rest', rfl, written⟩ := runs_perform_bind.mp finish
          obtain ⟨own, u, last, rfl, error, done⟩ := runs_bind.mp written
          obtain ⟨rfl, rfl⟩ := runs_pure.mp done
          rw [List.append_nil]
          exact .failed lookup run error
      | ok result => exact .finished lookup run finish

/-- The ways a run of the chat handler goes: refused before the reservation, by the
limiter's error or by its decision, or admitted. -/
inductive ChatRun (deps : ChatDeps) (r : Request) : Trace → Ended → Prop
  | refused {start : Int64} {status : Int} {message : String} {own : Trace} :
      prepare deps r = .error (status, message) → (∀ ev ∈ own, ev.1.isHttp) →
      ChatRun deps r (⟨.now, start⟩ :: own) .returned
  | unlimited {start : Int64} {p : Prepared} {err : String} {own : Trace} :
      prepare deps r = .ok p → (∀ ev ∈ own, ev.1.isHttp) →
      ChatRun deps r (⟨.now, start⟩ ::
        ⟨.reserve (requestScopes deps p.identity) (reservationCost deps p.req), .error err⟩ :: own)
        .returned
  | rejected {start : Int64} {p : Prepared} {decision : RateLimit.Decision} {own : Trace} :
      prepare deps r = .ok p → decision.allowed = false → (∀ ev ∈ own, ev.1.isHttp) →
      ChatRun deps r (⟨.now, start⟩ ::
        ⟨.reserve (requestScopes deps p.identity) (reservationCost deps p.req), .ok decision⟩ :: own)
        .returned
  | admitted {start : Int64} {p : Prepared} {decision : RateLimit.Decision} {rest : Trace}
      {out : Ended} : prepare deps r = .ok p → decision.allowed = true →
      (p.req.stream = true ∧
          Runs (handleStreamingChatCompletion deps r (afterReserve deps p start)) rest out ∨
        p.req.stream = false ∧ Runs (completeChat deps r (afterReserve deps p start)) rest out) →
      ChatRun deps r (⟨.now, start⟩ ::
        ⟨.reserve (requestScopes deps p.identity) (reservationCost deps p.req), .ok decision⟩ :: rest)
        out

theorem handleChatCompletions_cases {deps : ChatDeps} {r : Request} {tr : Trace} {out : Ended}
    (h : Runs (handleChatCompletions deps r) tr out) : ChatRun deps r tr out := by
  obtain ⟨start, rest, rfl, checked⟩ := runs_perform_bind.mp h
  cases hp : prepare deps r with
  | error refusal =>
      simp only [hp] at checked
      obtain ⟨own, u, last, rfl, written, done⟩ := runs_bind.mp checked
      obtain ⟨rfl, rfl⟩ := runs_pure.mp done
      rw [List.append_nil]
      exact .refused hp ((writeJSONError_within _ _ _).runs written)
  | ok p =>
      simp only [hp] at checked
      obtain ⟨decided, rest', rfl, after⟩ := runs_perform_bind.mp checked
      cases decided with
      | error err =>
          obtain ⟨own, u, last, rfl, written, done⟩ := runs_bind.mp after
          obtain ⟨rfl, rfl⟩ := runs_pure.mp done
          rw [List.append_nil]
          exact .unlimited hp ((writeJSONError_within _ _ _).runs written)
      | ok decision =>
          cases hd : decision.allowed with
          | false =>
              simp only [hd, Bool.not_false, if_true] at after
              obtain ⟨own, u, last, rfl, written, done⟩ := runs_bind.mp after
              obtain ⟨rfl, rfl⟩ := runs_pure.mp done
              rw [List.append_nil]
              exact .rejected hp hd ((writeRateLimitRejection_within _ _).runs written)
          | true =>
              simp only [hd, Bool.not_true, Bool.false_eq_true, if_false] at after
              refine .admitted hp hd ?_
              cases hs : p.req.stream with
              | true =>
                  simp only [hs, if_true] at after
                  exact .inl ⟨rfl, after⟩
              | false =>
                  simp only [hs, Bool.false_eq_true, if_false] at after
                  exact .inr ⟨rfl, after⟩

/-- Either branch of an admitted request, completed to a run of the handler. -/
theorem runs_admitted {deps : ChatDeps} {r : Request} {p : Prepared} {start : Int64}
    {decision : RateLimit.Decision} {rest : Trace} {out : Ended} (ready : prepare deps r = .ok p)
    (granted : decision.allowed = true)
    (branch : p.req.stream = true ∧
        Runs (handleStreamingChatCompletion deps r (afterReserve deps p start)) rest out ∨
      p.req.stream = false ∧ Runs (completeChat deps r (afterReserve deps p start)) rest out) :
    Runs (handleChatCompletions deps r) (⟨.now, start⟩ ::
      ⟨.reserve (requestScopes deps p.identity) (reservationCost deps p.req), .ok decision⟩ :: rest)
      out := by
  refine runs_perform_bind.mpr ⟨start, _, rfl, ?_⟩
  simp only [ready]
  refine runs_perform_bind.mpr ⟨.ok decision, _, rfl, ?_⟩
  rcases branch with ⟨stream, run⟩ | ⟨stream, run⟩
  · simp only [granted, stream, Bool.not_true, Bool.false_eq_true, if_false, if_true]
    exact run
  · simp only [granted, stream, Bool.not_true, Bool.false_eq_true, if_false]
    exact run

def Op.isReserve : Op → Prop
  | .reserve _ _ => True
  | _ => False

theorem Op.isQuiet.unreserved {o : Op} (h : o.isQuiet) : ¬ o.isReserve := by
  cases o with
  | reserve scopes cost => exact h.elim
  | _ => exact not_false

theorem Op.isEnding.unreserved {o : Op} (h : o.isEnding) : ¬ o.isReserve := by
  cases o with
  | reserve scopes cost => exact h.elim
  | _ => exact not_false

theorem handleStreamingChatCompletion_unreserved (deps : ChatDeps) (r : Request) (a : Admitted) :
    Within (fun o => ¬ o.isReserve) (handleStreamingChatCompletion deps r a) := by
  refine .bind ((checkCaches_within _ _ _).mono fun _ lookup => lookup.quiet.unreserved) ?_
  rintro ⟨hit, found⟩
  cases hit with
  | some hit =>
      exact .bind (.perform not_false) fun _ =>
        .bind ((writeCachedStream_within _ _ _).mono fun _ h => h.quiet.unreserved) fun _ =>
        (finishCacheHit_within _ _ _ _ _ _).mono fun _ h => h.ending.unreserved
  | none =>
      refine .bind (.perform not_false) fun _ => .bind (.perform not_false) fun _ =>
        .bind ((Within.handle (relay_within _ _) _ _).mono fun _ h => h.quiet.unreserved) ?_
      rintro ⟨streamed, s⟩
      rcases streamed with - | failure | result
      · exact .pure _
      · exact (handleStreamError_within _ _ _ _ _).mono fun _ h => h.ending.unreserved
      · exact (finishStream_within _ _ _ _ _ _ _).mono fun _ => Op.isEnding.unreserved

theorem completeChat_unreserved (deps : ChatDeps) (r : Request) (a : Admitted) :
    Within (fun o => ¬ o.isReserve) (completeChat deps r a) := by
  refine .bind ((checkCaches_within _ _ _).mono fun _ lookup => lookup.quiet.unreserved) ?_
  rintro ⟨hit, found⟩
  cases hit with
  | some hit =>
      exact .bind (.perform not_false) fun _ =>
        .bind ((writeCachedResponse_within _ _).mono fun _ h => h.quiet.unreserved) fun _ =>
        (finishCacheHit_within _ _ _ _ _ _).mono fun _ h => h.ending.unreserved
  | none =>
      have each : ∀ s o, Within (fun o => ¬ Op.isReserve o) (direct s o) :=
        fun s o => .bind (.perform not_false) fun _ => .pure _
      refine .bind (Within.handle each _ _) ?_
      rintro ⟨executed, s⟩
      rcases executed with - | failure | result
      · exact .pure _
      · exact .bind (.perform not_false) fun _ =>
          .bind ((reportEngineError_within _ _ _).mono fun _ h => h.quiet.unreserved) fun _ => .pure _
      · exact (finishCompletion_within _ _ _ _ _).mono fun _ => Op.isEnding.unreserved

theorem admissions_of_unreserved {tr : Trace} (h : ∀ ev ∈ tr, ¬ ev.1.isReserve) :
    admissions tr = [] := by
  apply List.filterMap_eq_nil_iff.mpr
  rintro ⟨op, reply⟩ member
  cases op with
  | reserve scopes cost => exact absurd trivial (h _ member)
  | _ => rfl

/-- An allowed reservation is the only one of its run, and the rest of the run is one of the
two branches, for the request it was made for. -/
theorem chat_admitted {deps : ChatDeps} {r : Request} {tr : Trace} {out : Ended}
    {scopes : RateLimit.Scopes} {cost : Int64} (h : Runs (handleChatCompletions deps r) tr out)
    (allowed : (scopes, cost) ∈ admissions tr) :
    ∃ start p decision rest, prepare deps r = .ok p ∧ scopes = requestScopes deps p.identity ∧
      cost = reservationCost deps p.req ∧
      tr = ⟨.now, start⟩ :: ⟨.reserve scopes cost, .ok decision⟩ :: rest ∧
      decision.allowed = true ∧
      (p.req.stream = true ∧
          Runs (handleStreamingChatCompletion deps r (afterReserve deps p start)) rest out ∨
        p.req.stream = false ∧ Runs (completeChat deps r (afterReserve deps p start)) rest out) := by
  cases handleChatCompletions_cases h with
  | @refused start status message own refusal http =>
      have nothing := admissions_of_unreserved fun ev member => (http ev member).quiet.unreserved
      exact absurd allowed (by
        show (scopes, cost) ∉ admissions own
        simp [nothing])
  | @unlimited start p err own ready http =>
      have nothing := admissions_of_unreserved fun ev member => (http ev member).quiet.unreserved
      exact absurd allowed (by
        show (scopes, cost) ∉ admissions own
        simp [nothing])
  | @rejected start p decision own ready denied http =>
      have nothing := admissions_of_unreserved fun ev member => (http ev member).quiet.unreserved
      unfold admissions at nothing allowed
      simp [List.filterMap_cons, admission, denied, nothing] at allowed
  | @admitted start p decision rest out ready granted branch =>
      have nothing : admissions rest = [] := by
        apply admissions_of_unreserved
        rcases branch with ⟨-, run⟩ | ⟨-, run⟩
        · exact (handleStreamingChatCompletion_unreserved _ _ _).runs run
        · exact (completeChat_unreserved _ _ _).runs run
      unfold admissions at nothing allowed
      simp only [List.filterMap_cons, admission, granted, if_true, nothing, List.mem_singleton,
        Prod.mk.injEq] at allowed
      obtain ⟨rfl, rfl⟩ := allowed
      exact ⟨start, p, decision, rest, ready, rfl, rfl, rfl, granted, branch⟩

end Gateway.Server
