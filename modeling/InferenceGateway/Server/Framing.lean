import InferenceGateway.Http.EventStream
import InferenceGateway.Retry.StreamLog
import InferenceGateway.Server.Settlement

/-! The body of a streamed answer. Which response format a run commits to is decided by the
first delta of any kind, while the engine reports content only; the two agree on some runs
and not on others. -/
namespace Gateway.Server
open Gateway.Providers Gateway.Retry EventStream Http
open Interaction hiding Program.perform
open Interaction.Program hiding pure perform

def writeFailed : Event Op Op.Reply → Bool
  | ⟨.http (.write _), some _⟩ => true
  | _ => false

/-- No write to the client failed. -/
def WritesSucceed (tr : Trace) : Prop := ∀ ev ∈ tr, writeFailed ev = false

instance (tr : Trace) : Decidable (WritesSucceed tr) :=
  inferInstanceAs (Decidable (∀ ev ∈ tr, writeFailed ev = false))

theorem WritesSucceed.left {tr₁ tr₂ : Trace} (h : WritesSucceed (tr₁ ++ tr₂)) : WritesSucceed tr₁ :=
  fun ev member => h ev (List.mem_append_left _ member)

theorem WritesSucceed.right {tr₁ tr₂ : Trace} (h : WritesSucceed (tr₁ ++ tr₂)) : WritesSucceed tr₂ :=
  fun ev member => h ev (List.mem_append_right _ member)

theorem WritesSucceed.tail {ev : Event Op Op.Reply} {tr : Trace} (h : WritesSucceed (ev :: tr)) :
    WritesSucceed tr := fun ev member => h ev (List.mem_cons_of_mem _ member)

theorem WritesSucceed.head {text : String} {w : Option String} {tr : Trace}
    (h : WritesSucceed (⟨.http (.write text), w⟩ :: tr)) : w = none := by
  have fine := h _ List.mem_cons_self
  cases w with
  | none => rfl
  | some err => cases fine

theorem httpCalls_append (tr₁ tr₂ : Trace) :
    httpCalls (tr₁ ++ tr₂) = httpCalls tr₁ ++ httpCalls tr₂ := List.filterMap_append

/-- The text of the chunk sent for a delta. -/
def chunkText (ctx : StreamContext) (d : Delta) : String :=
  (chunkJSON ctx.id ctx.created ctx.model "" d.content (nilIfEmpty d.finishReason)).text

theorem writeSSEEvent_unnamed {data : Json.Value} {tr : Trace} {err : Option String}
    (h : Runs (writeSSEEvent "" data) tr err) :
    tr = [⟨.http (.write (dataEvent data.text)), err⟩] := by
  obtain ⟨own, named, rest, rfl, first, last⟩ := runs_bind.mp h
  simp only [writeEventName, ne_eq, not_true_eq_false, if_false] at first
  obtain ⟨rfl, rfl⟩ := runs_pure.mp first
  exact runs_perform.mp last

theorem writeSSEEvent_error {data : Json.Value} {tr : Trace} {err : Option String}
    (writes : WritesSucceed tr) (h : Runs (writeSSEEvent "error" data) tr err) :
    httpCalls tr = [.write "event: error\n", .write (dataEvent data.text)] := by
  obtain ⟨own, named, rest, rfl, first, last⟩ := runs_bind.mp h
  have name : Runs (write "event: error\n") own named := first
  rw [write, runs_perform] at name
  subst name
  have fine : named = none := writes.head
  subst fine
  rw [runs_perform.mp last]
  rfl

theorem sendChunk_calls {ctx : StreamContext} {d : Delta} {tr : Trace} {failed : Option CallError}
    (writes : WritesSucceed tr) (h : Runs (sendChunk ctx d) tr failed) :
    failed = none ∧ httpCalls tr = [.write (dataEvent (chunkText ctx d)), .flush] := by
  obtain ⟨own, err, rest, rfl, first, last⟩ := runs_bind.mp h
  have own := writeSSEEvent_unnamed first
  subst own
  have fine : err = none := writes.head
  subst fine
  obtain ⟨u, rest, rfl, done⟩ := runs_perform_bind.mp last
  obtain ⟨rfl, rfl⟩ := runs_pure.mp done
  exact ⟨rfl, rfl⟩

/-- The writer calls that commit a stream. -/
def commitCalls (deps : ChatDeps) (ctx : StreamContext) (providerName : String) : List Call :=
  [.setHeader "Content-Type" "text/event-stream", .setHeader "Cache-Control" "no-cache",
    .setHeader "X-Accel-Buffering" "no", .setHeader "X-Gateway-Provider" providerName,
    .setHeader "X-Gateway-Cache" "none"] ++
  (ctx.ttlOverride.map fun d => .setHeader "X-Gateway-Cache-TTL" (formatCacheTTL deps.lib d)).toList ++
  [.writeHeader 200]

theorem commitStream_calls {deps : ChatDeps} {ctx : StreamContext} {providerName : String}
    {tr : Trace} {u : Unit} (h : Runs (commitStream deps ctx providerName) tr u) :
    httpCalls tr = commitCalls deps ctx providerName := by
  obtain ⟨-, tr, rfl, h⟩ := runs_perform_bind.mp h
  obtain ⟨-, tr, rfl, h⟩ := runs_perform_bind.mp h
  obtain ⟨-, tr, rfl, h⟩ := runs_perform_bind.mp h
  obtain ⟨-, tr, rfl, h⟩ := runs_perform_bind.mp h
  obtain ⟨-, tr, rfl, h⟩ := runs_perform_bind.mp h
  obtain ⟨hint, u', status, rfl, ttl, last⟩ := runs_bind.mp h
  have hinted : httpCalls hint = (ctx.ttlOverride.map fun d =>
      .setHeader "X-Gateway-Cache-TTL" (formatCacheTTL deps.lib d)).toList := by
    unfold setCacheTTLHeader at ttl
    cases hd : ctx.ttlOverride with
    | some d =>
        simp only [hd] at ttl
        rw [runs_perform.mp ttl]
        rfl
    | none =>
        simp only [hd] at ttl
        rw [(runs_pure.mp ttl).1]
        rfl
  have sent : httpCalls status = [.writeHeader 200] := by
    rw [runs_perform.mp last]
    rfl
  show _ :: _ :: _ :: _ :: _ :: httpCalls (hint ++ status) = _
  rw [httpCalls_append, hinted, sent]
  rfl

/-- The calls of the callbacks of a run, when all writes succeed. -/
def relayCalls (deps : ChatDeps) (ctx : StreamContext) (calls : List (String × String × Delta)) :
    List Call :=
  if ctx.canFlush then
    (match calls.head? with | none => [] | some call => commitCalls deps ctx call.1) ++
      calls.flatMap fun call => [.write (dataEvent (chunkText ctx call.2.2)), .flush]
  else []

theorem relayCalls_first {deps : ChatDeps} {ctx : StreamContext} {call : String × String × Delta}
    (able : ctx.canFlush = true) : relayCalls deps ctx [call] = commitCalls deps ctx call.1 ++
      [.write (dataEvent (chunkText ctx call.2.2)), .flush] := by
  simp [relayCalls, able]

theorem relayCalls_next {deps : ChatDeps} {ctx : StreamContext}
    {calls : List (String × String × Delta)} {call : String × String × Delta}
    (able : ctx.canFlush = true) (earlier : calls ≠ []) : relayCalls deps ctx (calls ++ [call]) =
      relayCalls deps ctx calls ++ [.write (dataEvent (chunkText ctx call.2.2)), .flush] := by
  obtain ⟨first, calls, rfl⟩ := List.exists_cons_of_ne_nil earlier
  simp [relayCalls, able]

/-- What the callbacks of a run leave on the wire: the headers of the first one and a chunk
for each, or nothing at all. -/
theorem handled_relay_calls {deps : ChatDeps} {ctx : StreamContext} {etr : Retry.Trace} {str : Trace}
    {s : StreamState} (h : Handled (relay deps ctx) {} etr str s) (writes : WritesSucceed str) :
    Uniform ctx.canFlush etr ∧ httpCalls str = relayCalls deps ctx (callbacks etr) := by
  let Inv (etr : Retry.Trace) (str : Trace) (s : StreamState) : Prop := WritesSucceed str →
    s.headersSent = (ctx.canFlush && !(callbacks etr).isEmpty) ∧ Uniform ctx.canFlush etr ∧
      httpCalls str = relayCalls deps ctx (callbacks etr)
  have start : Inv [] [] {} := fun _ => ⟨by simp [callbacks], by simp [Uniform],
    by simp [relayCalls, callbacks, httpCalls]⟩
  suffices whole : Inv ([] ++ etr) ([] ++ str) s from (whole writes).2
  apply h.invariant start
  rintro done past s ⟨o, reply⟩ own s' held run writes
  obtain ⟨sent, uniform, calls⟩ := held writes.left
  rw [callbacks_append, httpCalls_append, calls]
  by_cases other : ∀ name model d, o ≠ .onDelta name model d
  · obtain ⟨rfl, rfl⟩ := relay_passes other run
    have silent : callbacks [⟨o, reply⟩] = [] := by
      cases o with
      | onDelta name model d => exact absurd rfl (other name model d)
      | _ => rfl
    refine ⟨by simpa [silent] using sent, ?_, by simp [silent, httpCalls, httpCall]⟩
    intro name model d answer member
    rcases List.mem_append.mp member with early | late
    · exact uniform name model d answer early
    · cases List.mem_singleton.mp late
      exact absurd rfl (other name model d)
  · simp only [not_forall, not_not] at other
    obtain ⟨name, model, d, rfl⟩ := other
    have called : callbacks [⟨.onDelta name model d, reply⟩] = [(name, model, d)] := rfl
    have extend : reply.isNone = ctx.canFlush →
        Uniform ctx.canFlush (done ++ [⟨.onDelta name model d, reply⟩]) := by
      intro here name' model' d' answer member
      rcases List.mem_append.mp member with early | late
      · exact uniform name' model' d' answer early
      · cases List.mem_singleton.mp late
        exact here
    rw [called]
    obtain ⟨next, ⟨unsent, unable, rfl, refused⟩ | ⟨out, chunk⟩ |
      ⟨unsent, able, head, tail, rfl, commit, chunk⟩⟩ := onDelta_cases run
    · refine ⟨by simp [next, unsent, unable], extend ?_, by simp [relayCalls, unable, httpCalls]⟩
      rw [unable, Option.isNone_eq_false_iff, Option.isSome_iff_ne_none]
      exact refused
    · obtain ⟨rfl, own⟩ := sendChunk_calls writes.right chunk
      rw [out, eq_comm, Bool.and_eq_true, Bool.not_eq_true', List.isEmpty_eq_false_iff] at sent
      obtain ⟨able, earlier⟩ := sent
      refine ⟨by simp [next, out, able], extend (by rw [able]; rfl), ?_⟩
      rw [relayCalls_next able earlier, own]
    · obtain ⟨rfl, own⟩ := sendChunk_calls writes.right.right chunk
      have first : callbacks done = [] := by simpa [unsent, able] using sent
      refine ⟨by simp [next, able], extend (by rw [able]; rfl), ?_⟩
      rw [first, List.nil_append, relayCalls_first able, httpCalls_append,
        commitStream_calls commit, own]
      simp [relayCalls]

/-- The response the client of a run gets. -/
def responseOf (tr : Trace) : Response := ({} : Response).applyAll (httpCalls tr)

/-- The headers of an event stream are out. -/
def SentSSE (response : Response) : Prop :=
  ∃ header, response.committed = some (200, header) ∧
    header "Content-Type" = some "text/event-stream"

theorem sentSSE_iff {response : Response} : SentSSE response ↔
    response.committed.map (fun sent => (sent.1, sent.2 "Content-Type")) =
      some (200, some "text/event-stream") := by
  unfold SentSSE
  constructor
  · rintro ⟨header, sent, kind⟩
    simp only [sent, Option.map_some, kind]
  · intro shown
    obtain ⟨⟨status, header⟩, sent, same⟩ := Option.map_eq_some_iff.mp shown
    obtain ⟨rfl, kind⟩ := Prod.mk.inj same
    exact ⟨header, sent, kind⟩

instance (response : Response) : Decidable (SentSSE response) := decidable_of_iff _ sentSSE_iff.symm

/-- The response is one JSON error with the status of the engine's error. -/
def IsEngineError (r : Request) (err : EngineError) (response : Response) : Prop :=
  (∃ header, response.committed = some (engineStatus err, header) ∧
    header "Content-Type" = some "application/json") ∧
  response.body = encodeLine (errorPayload err.error r.requestID)

/-- A streamed answer in one format: events with one terminator if the headers of an event
stream were sent, and the engine's error otherwise. -/
def WellFramed (deps : ChatDeps) (r : Request) (a : Admitted) (tr : Trace) : Prop :=
  (SentSSE (responseOf tr) → Framed "[DONE]" "error" (responseOf tr).body) ∧
  (¬ SentSSE (responseOf tr) → ∃ etr failure, StreamedIn deps a.tiers a.req tr etr (.error failure) ∧
    IsEngineError r failure.err (responseOf tr))

/-- Some Stream call of the run produced a delta for a client that can be flushed. -/
def Commits (r : Request) (replies : List StreamReply) : Prop :=
  r.canFlush = true ∧ ∃ reply ∈ replies, reply.deltas ≠ []

/-- Some Stream call succeeded, or produced content for a client that can be flushed. -/
def Delivers (r : Request) (replies : List StreamReply) : Prop :=
  (∃ reply ∈ replies, reply.Finishes r.canFlush) ∨
    (r.canFlush = true ∧ ∃ reply ∈ replies, ∃ d ∈ reply.deltas, d.content ≠ "")

theorem commitCalls_committed (deps : ChatDeps) (ctx : StreamContext) (providerName : String) :
    SentSSE (({} : Response).applyAll (commitCalls deps ctx providerName)) := by
  cases hd : ctx.ttlOverride with
  | none => exact ⟨_, by rw [commitCalls, hd]; rfl, by simp [Response.apply]⟩
  | some d => exact ⟨_, by rw [commitCalls, hd]; rfl, by simp [Response.apply]⟩

theorem SentSSE.applyAll {response : Response} (calls : List Call) (h : SentSSE response) :
    SentSSE (response.applyAll calls) := by
  obtain ⟨header, sent, kind⟩ := h
  exact ⟨header, Response.applyAll_committed calls sent, kind⟩

theorem relayCalls_committed {deps : ChatDeps} {ctx : StreamContext}
    {calls : List (String × String × Delta)} (able : ctx.canFlush = true) (called : calls ≠ [])
    (later : List Call) : SentSSE (({} : Response).applyAll (relayCalls deps ctx calls ++ later)) := by
  obtain ⟨first, calls, rfl⟩ := List.exists_cons_of_ne_nil called
  simp only [relayCalls, able, if_true, List.head?_cons, List.append_assoc]
  rw [Response.applyAll_append]
  exact (commitCalls_committed deps ctx first.1).applyAll _

theorem relayCalls_written {deps : ChatDeps} {ctx : StreamContext}
    {calls : List (String × String × Delta)} (able : ctx.canFlush = true) :
    written (relayCalls deps ctx calls) =
      String.join ((calls.map fun call => chunkText ctx call.2.2).map dataEvent) := by
  have chunks : ∀ calls : List (String × String × Delta),
      written (calls.flatMap fun call => [.write (dataEvent (chunkText ctx call.2.2)), .flush]) =
        String.join ((calls.map fun call => chunkText ctx call.2.2).map dataEvent) := by
    intro calls
    induction calls with
    | nil => rfl
    | cons call calls ih =>
        rw [List.flatMap_cons, written_append, ih]
        simp [written, Call.text]
  have head : ∀ providerName, written (commitCalls deps ctx providerName) = "" := by
    intro providerName
    cases hd : ctx.ttlOverride <;> simp [commitCalls, hd, written, Call.text]
  rw [relayCalls, if_pos able, written_append, chunks]
  cases calls.head? with
  | none => simp [written]
  | some call => simp [head]

/-- A chunk is a single line, and it is not the closing mark. -/
theorem chunkText_payload (ctx : StreamContext) (d : Delta) :
    SingleLine (chunkText ctx d) ∧ chunkText ctx d ≠ "[DONE]" := by
  refine ⟨Json.Value.text_single_line _, ?_⟩
  intro same
  obtain ⟨inner, text⟩ : ∃ inner, (chunkText ctx d).toList = '\x7b' :: inner ++ ['\x7d'] :=
    Json.Value.text_obj _
  rw [same] at text
  simp at text

/-- An encoded error ends in a brace and one line break. -/
theorem encodeLine_errorPayload (message requestID : String) :
    ∃ inner, (encodeLine (errorPayload message requestID)).toList =
      '\x7b' :: inner ++ ['\x7d', '\n'] := by
  obtain ⟨inner, text⟩ : ∃ inner, (errorPayload message requestID).text.toList =
    '\x7b' :: inner ++ ['\x7d'] := Json.Value.text_obj _
  exact ⟨inner, by simp [encodeLine, text]⟩

/-- A body that ends in a JSON error is not an event stream. -/
theorem not_framed_of_error {mark name before message requestID : String} :
    ¬ Framed mark name (before ++ encodeLine (errorPayload message requestID)) := by
  intro framed
  obtain ⟨init, ends⟩ := framed.ends
  obtain ⟨inner, text⟩ := encodeLine_errorPayload message requestID
  rw [String.toList_append, text] at ends
  have last : (before.toList ++ '\x7b' :: inner) ++ ['\x7d', '\n'] = init ++ ['\n', '\n'] := by
    simpa using ends
  have same := (List.append_inj' last rfl).2
  simp at same

theorem reportEngineError_calls {r : Request} {err : EngineError} {tr : Trace} {u : Unit}
    (h : Runs (reportEngineError r err []) tr u) :
    httpCalls tr = [.setHeader "Content-Type" "application/json", .writeHeader (engineStatus err),
      .write (encodeLine (errorPayload err.error r.requestID))] := by
  obtain ⟨w, rfl⟩ := runs_reportEngineError h
  rfl

theorem runs_flushIf {canFlush : Bool} {tr : Trace} {u : Unit} (h : Runs (flushIf canFlush) tr u) :
    ∀ call ∈ httpCalls tr, call = .flush := by
  unfold flushIf at h
  split at h
  · rw [runs_perform.mp h]
    exact fun call member => List.mem_singleton.mp member
  · rw [(runs_pure.mp h).1]
    exact fun call member => absurd member List.not_mem_nil

theorem written_flushes {calls : List Call} (h : ∀ call ∈ calls, call = .flush) : written calls = "" := by
  induction calls with
  | nil => rfl
  | cons call calls ih =>
      rw [List.forall_mem_cons] at h
      rw [written_cons, h.1, ih h.2]
      rfl

theorem httpCalls_of_lookup {tr : Trace} (h : ∀ ev ∈ tr, ev.1.isLookup) : httpCalls tr = [] := by
  refine unobserved ?_ h
  intro op reply only
  cases op <;> first | rfl | exact only.elim

theorem httpCalls_of_store {tr : Trace} (h : ∀ ev ∈ tr, ev.1.isStore) : httpCalls tr = [] := by
  refine unobserved ?_ h
  intro op reply only
  cases op <;> first | rfl | exact only.elim

theorem httpCalls_lift (etr : Retry.Trace) : httpCalls (etr.map Op.lift) = [] := by
  apply List.filterMap_eq_nil_iff.mpr
  intro ev member
  obtain ⟨inner, -, rfl⟩ := List.mem_map.mp member
  rfl

theorem rows_httpCalls (deps : ChatDeps) (entry : Ledger.Entry) : httpCalls (rows deps entry) = [] := by
  unfold rows
  split <;> rfl

/-- The calls of an ending: the closing mark, the engine's error or an error event. -/
inductive EndCalls (r : Request) : Except StreamError StreamResult → List Call → Prop
  | done {result : StreamResult} (flushes : List Call) : written flushes = "" →
      EndCalls r (.ok result) (.write (dataEvent "[DONE]") :: flushes)
  | refused {failure : StreamError} : failure.flushed = false →
      EndCalls r (.error failure) [.setHeader "Content-Type" "application/json",
        .writeHeader (engineStatus failure.err),
        .write (encodeLine (errorPayload failure.err.error r.requestID))]
  | broken {failure : StreamError} (flushes : List Call) : failure.flushed = true →
      written flushes = "" →
      EndCalls r (.error failure) (.write "event: error\n" ::
        .write (dataEvent (errorPayload failure.err.error r.requestID).text) :: flushes)

/-- A completed stream ends with the closing mark and at most a flush. -/
theorem finishStream_calls {deps : ChatDeps} {r : Request} {a : Admitted} {ctx : StreamContext}
    {lookup : CacheLookup} {s : StreamState} {result : StreamResult} {tail : Trace} {out : Ended}
    (h : Runs (finishStream deps r a ctx lookup s result) tail out) :
    ∃ flushes, httpCalls tail = .write (dataEvent "[DONE]") :: flushes ∧
      ∀ call ∈ flushes, call = .flush := by
  obtain ⟨-, mark, err, own, w, t, entry, store, -, rfl, sent, push, stored⟩ := finishStream_cases h
  rw [writeSSEDone, write, runs_perform] at sent
  subst sent
  have kept := httpCalls_of_store ((storeInCaches_within _ _ _ _).runs stored)
  refine ⟨httpCalls own, ?_, runs_flushIf push⟩
  show .write (dataEvent "[DONE]") :: httpCalls (own ++ _) = _
  rw [httpCalls_append]
  show _ :: (_ ++ httpCalls (rows deps entry ++ store)) = _
  rw [httpCalls_append, rows_httpCalls, kept, List.append_nil, List.append_nil]

theorem endStream_calls {deps : ChatDeps} {r : Request} {a : Admitted} {ctx : StreamContext}
    {lookup : CacheLookup} {s : StreamState} {outcome : Except StreamError StreamResult} {tail : Trace}
    {out : Ended} (writes : WritesSucceed tail)
    (h : Runs (endStream deps r a ctx lookup s outcome) tail out) :
    EndCalls r outcome (httpCalls tail) := by
  cases outcome with
  | ok result =>
      obtain ⟨flushes, calls, only⟩ := finishStream_calls h
      rw [calls]
      exact .done flushes (written_flushes only)
  | error failure =>
      cases flushed : failure.flushed with
      | false =>
          obtain ⟨-, w, own, rfl, error⟩ := handleStreamError_unflushed flushed h
          show EndCalls r _ (httpCalls own)
          rw [reportEngineError_calls error]
          exact .refused flushed
      | true =>
          obtain ⟨-, w, event, err, own, t, entry, -, rfl, sent, push⟩ :=
            handleStreamError_flushed flushed h
          have fine : WritesSucceed event := writes.tail.left
          show EndCalls r _ (httpCalls (event ++ (own ++ ⟨.now, t⟩ :: rows deps entry)))
          rw [httpCalls_append, httpCalls_append, writeSSEEvent_error fine sent]
          show EndCalls r _ (_ :: _ :: (httpCalls own ++ httpCalls (rows deps entry)))
          rw [rows_httpCalls, List.append_nil]
          exact .broken _ flushed (written_flushes (runs_flushIf push))

/-- After the headers, every ending but the engine's error keeps the format. -/
theorem EndCalls.framed_iff {r : Request} {outcome : Except StreamError StreamResult}
    {calls : List Call} (h : EndCalls r outcome calls) {payloads : List String}
    (lines : ∀ p ∈ payloads, SingleLine p ∧ p ≠ "[DONE]") :
    Framed "[DONE]" "error" (String.join (payloads.map dataEvent) ++ written calls) ↔
      ∀ failure, outcome = .error failure → failure.flushed = true := by
  cases h with
  | done flushes silent =>
      refine iff_of_true ⟨payloads, dataEvent "[DONE]", lines, .inl rfl, ?_⟩ (by simp)
      rw [written_cons, silent, Call.text, String.append_empty]
  | @refused failure unflushed =>
      have body : written [.setHeader "Content-Type" "application/json",
          .writeHeader (engineStatus failure.err),
          .write (encodeLine (errorPayload failure.err.error r.requestID))] =
          encodeLine (errorPayload failure.err.error r.requestID) := by
        simp [written, Call.text]
      rw [body]
      refine iff_of_false not_framed_of_error ?_
      intro all
      exact absurd (all failure rfl) (by simp [unflushed])
  | @broken failure flushes flushed silent =>
      have closing : Terminator "[DONE]" "error"
          (namedEvent "error" (errorPayload failure.err.error r.requestID).text) :=
        .inr ⟨_, Json.Value.text_single_line _, rfl⟩
      refine iff_of_true ⟨payloads, _, lines, closing, ?_⟩ ?_
      · rw [written_cons, written_cons, silent, Call.text, Call.text, String.append_empty,
          namedEvent]
        rfl
      · intro failure same
        cases same
        exact flushed

/-- Without the headers, the engine's error is a response of its own, and the closing mark
is not. -/
theorem EndCalls.unsent {r : Request} {outcome : Except StreamError StreamResult} {calls : List Call}
    (h : EndCalls r outcome calls)
    (unflushed : ∀ failure, outcome = .error failure → failure.flushed = false) :
    ¬ SentSSE (({} : Response).applyAll calls) ∧
      (∀ failure, outcome = .error failure →
        IsEngineError r failure.err (({} : Response).applyAll calls)) ∧
      (∀ result, outcome = .ok result →
        ∀ err, ¬ IsEngineError r err (({} : Response).applyAll calls)) := by
  cases h with
  | done flushes silent =>
      have committed : (({} : Response).applyAll
          (.write (dataEvent "[DONE]") :: flushes)).committed = some (200, fun _ => none) :=
        Response.applyAll_committed flushes rfl
      refine ⟨?_, by simp, ?_⟩
      · rintro ⟨header, sent, kind⟩
        rw [committed] at sent
        rw [← (Prod.mk.inj (Option.some.inj sent)).2] at kind
        cases kind
      · rintro result - err ⟨⟨header, sent, kind⟩, -⟩
        rw [committed] at sent
        rw [← (Prod.mk.inj (Option.some.inj sent)).2] at kind
        cases kind
  | @refused failure flushed =>
      refine ⟨?_, ?_, by simp⟩
      · rintro ⟨header, sent, kind⟩
        rw [← (Prod.mk.inj (Option.some.inj sent)).2] at kind
        simp [Response.apply] at kind
      · intro failure same
        cases same
        refine ⟨⟨_, rfl, by simp [Response.apply]⟩, ?_⟩
        rw [Response.applyAll_body]
        simp [written, Call.text]
  | @broken failure flushes flushed silent =>
      exact absurd (unflushed failure rfl) (by simp [flushed])

theorem engineEvents_append (tr₁ tr₂ : Trace) :
    engineEvents (tr₁ ++ tr₂) = engineEvents tr₁ ++ engineEvents tr₂ := List.filterMap_append

theorem engineEvents_of_lookup {tr : Trace} (h : ∀ ev ∈ tr, ev.1.isLookup) : engineEvents tr = [] := by
  refine unobserved ?_ h
  intro op reply only
  cases op <;> first | rfl | exact only.elim

theorem engineEvents_of_ending {tr : Trace} (h : ∀ ev ∈ tr, ev.1.isEnding) : engineEvents tr = [] := by
  refine unobserved ?_ h
  intro op reply only
  cases op <;> first | rfl | exact only.elim

/-- The Stream calls seen from outside are those the engine made. -/
theorem RelayedRun.replies {deps : ChatDeps} {ctx : StreamContext} {etr : Retry.Trace} {str : Trace}
    {s : StreamState} (h : RelayedRun deps ctx etr str s) :
    streamReplies (engineEvents str) = streamReplies etr := by
  rw [h.calls]
  unfold streamReplies
  rw [List.filterMap_filter]
  apply List.filterMap_congr
  rintro ⟨op, reply⟩ -
  cases op <;> rfl

/-- So are those of a whole streamed run. -/
theorem streamed_replies {deps : ChatDeps} {r : Request} {a : Admitted} {ctx : StreamContext}
    {lookup : CacheLookup} {outcome : Except StreamError StreamResult} {look str tail : Trace}
    {etr : Retry.Trace} {s : StreamState} {out : Ended} {suffix : String} {t : Int64}
    (looked : ∀ ev ∈ look, ev.1.isLookup) (relayed : RelayedRun deps ctx etr str s)
    (ending : Runs (endStream deps r a ctx lookup s outcome) tail out) :
    streamReplies (engineEvents (look ++ ⟨.newRequestID, suffix⟩ :: ⟨.now, t⟩ :: (str ++ tail))) =
      streamReplies etr := by
  rw [engineEvents_append, engineEvents_of_lookup looked]
  show streamReplies (engineEvents (str ++ tail)) = _
  rw [engineEvents_append, engineEvents_of_ending ((endStream_within _ _ _ _ _ _ _).runs ending),
    List.append_nil, relayed.replies]

section Replies
variable {deps : ChatDeps} {r : Request} {a : Admitted} {etr : Retry.Trace}
  {outcome : Except StreamError StreamResult}
  (budget : 1 ≤ deps.engine.cfg.maxAttemptsPerProvider) (uniform : Uniform r.canFlush etr)
  (run : Runs (deps.engine.executeStream a.tiers a.req) etr (some outcome))
include budget uniform run

theorem mem_callbacks_iff (able : r.canFlush = true) (d : Delta) :
    d ∈ (callbacks etr).map (fun call => call.2.2) ↔
      ∃ reply ∈ streamReplies etr, d ∈ reply.deltas := by
  rw [(executeStream_uniform budget uniform run).2, List.mem_flatMap]
  simp [StreamReply.offered, able]

/-- The headers go out with the first delta of any call. -/
theorem commits_iff_callbacks :
    Commits r (streamReplies etr) ↔ r.canFlush = true ∧ callbacks etr ≠ [] := by
  unfold Commits
  apply and_congr_right
  intro able
  constructor
  · rintro ⟨reply, replied, some⟩ none
    obtain ⟨d, held⟩ := List.exists_mem_of_ne_nil _ some
    have member := (mem_callbacks_iff budget uniform run able d).mpr ⟨reply, replied, held⟩
    rw [none] at member
    cases member
  · intro called
    obtain ⟨call, member⟩ := List.exists_mem_of_ne_nil _ called
    obtain ⟨reply, replied, held⟩ :=
      (mem_callbacks_iff budget uniform run able call.2.2).mp (List.mem_map_of_mem member)
    exact ⟨reply, replied, List.ne_nil_of_mem held⟩

theorem delivered_iff_content : delivered etr ≠ [] ↔
    r.canFlush = true ∧ ∃ reply ∈ streamReplies etr, ∃ d ∈ reply.deltas, d.content ≠ "" := by
  rw [delivered_callbacks uniform]
  apply and_congr_right
  intro able
  constructor
  · rintro ⟨call, member, text⟩
    obtain ⟨reply, replied, held⟩ :=
      (mem_callbacks_iff budget uniform run able call.2.2).mp (List.mem_map_of_mem member)
    exact ⟨reply, replied, call.2.2, held, text⟩
  · rintro ⟨reply, replied, d, held, text⟩
    have member := (mem_callbacks_iff budget uniform run able d).mpr ⟨reply, replied, held⟩
    obtain ⟨call, listed, rfl⟩ := List.mem_map.mp member
    exact ⟨call, listed, text⟩

/-- The engine's flag is set by content only. -/
theorem flushed_iff_content {failure : StreamError} (failed : outcome = .error failure) :
    failure.flushed = true ↔
      r.canFlush = true ∧ ∃ reply ∈ streamReplies etr, ∃ d ∈ reply.deltas, d.content ≠ "" := by
  obtain ⟨out, same, -, flushed, -⟩ := Engine.executeStreamFrom_unspliced run
  cases same
  rw [flushed failure failed, delivered_iff_content budget uniform run]

theorem delivers_iff_flushed : Delivers r (streamReplies etr) ↔
    ∀ failure, outcome = .error failure → failure.flushed = true := by
  rw [Delivers, ← (executeStream_uniform budget uniform run).1]
  cases outcome with
  | ok result => simp
  | error failure =>
      rw [← flushed_iff_content budget uniform run rfl]
      simp

/-- Without headers no callback has written anything, and the engine's flag is not set. -/
theorem relayCalls_of_uncommitted (suffix : String) (t : Int64)
    (uncommitted : ¬ Commits r (streamReplies etr)) :
    relayCalls deps (streamContext r a suffix t) (callbacks etr) = [] := by
  rw [commits_iff_callbacks budget uniform run, not_and, not_not] at uncommitted
  by_cases able : r.canFlush = true
  · rw [uncommitted able]
    simp [relayCalls]
  · exact if_neg able

theorem unflushed_of_uncommitted (uncommitted : ¬ Commits r (streamReplies etr)) {failure : StreamError}
    (failed : outcome = .error failure) : failure.flushed = false := by
  rw [Bool.eq_false_iff]
  intro flushed
  obtain ⟨able, reply, replied, d, held, -⟩ :=
    (flushed_iff_content budget uniform run failed).mp flushed
  exact uncommitted ⟨able, reply, replied, List.ne_nil_of_mem held⟩

end Replies

/-- The response of a streamed run: what its callbacks wrote, then its ending. -/
theorem streamed_response {look str tail : Trace} {suffix : String} {t : Int64} {calls : List Call}
    (looked : ∀ ev ∈ look, ev.1.isLookup) (relayed : httpCalls str = calls) :
    responseOf (look ++ ⟨.newRequestID, suffix⟩ :: ⟨.now, t⟩ :: (str ++ tail)) =
      ({} : Response).applyAll (calls ++ httpCalls tail) := by
  rw [responseOf, httpCalls_append, httpCalls_of_lookup looked]
  show ({} : Response).applyAll (httpCalls (str ++ tail)) = _
  rw [httpCalls_append, relayed]

theorem chunkTexts_payload (ctx : StreamContext) (calls : List (String × String × Delta)) :
    ∀ p ∈ calls.map (fun call => chunkText ctx call.2.2), SingleLine p ∧ p ≠ "[DONE]" := by
  intro p member
  obtain ⟨call, -, rfl⟩ := List.mem_map.mp member
  exact chunkText_payload _ _

/-- The answer of a streaming run that no cache served keeps to one format exactly if the
headers are committed just when the engine succeeds or has relayed content. -/
theorem streaming_wellFramed_iff {deps : ChatDeps} {r : Request} {a : Admitted} {tr : Trace}
    {out : Ended} (budget : 1 ≤ deps.engine.cfg.maxAttemptsPerProvider)
    (h : Runs (handleStreamingChatCompletion deps r a) tr out) (miss : cacheHits tr = [])
    (writes : WritesSucceed tr) :
    WellFramed deps r a tr ↔ (Commits r (streamReplies (engineEvents tr)) ↔
      Delivers r (streamReplies (engineEvents tr))) := by
  cases handleStreamingChatCompletion_cases h with
  | hit found => simp [cacheHits_append, checkCaches_hits found] at miss
  | @streamed look str tail etr suffix t lookup s outcome out found run handled ending =>
      have looked := (checkCaches_within _ _ _).runs found
      have relayed := relayedRun_of_handled handled
      have inside : ∀ failure, outcome = .error failure → StreamedIn deps a.tiers a.req
          (look ++ ⟨.newRequestID, suffix⟩ :: ⟨.now, t⟩ :: (str ++ tail)) etr (.error failure) := by
        rintro failure rfl
        exact ⟨_, look ++ [⟨.newRequestID, suffix⟩, ⟨.now, t⟩], str, tail, s, by simp, run, handled⟩
      have fine : WritesSucceed (str ++ tail) := writes.right.tail.tail
      obtain ⟨uniform, calls⟩ := handled_relay_calls handled fine.left
      have ends := endStream_calls fine.right ending
      have response : responseOf (look ++ ⟨.newRequestID, suffix⟩ :: ⟨.now, t⟩ :: (str ++ tail)) = _ :=
        streamed_response looked calls
      rw [streamed_replies looked relayed ending, delivers_iff_flushed budget uniform run]
      by_cases committed : Commits r (streamReplies etr)
      · obtain ⟨able, called⟩ := (commits_iff_callbacks budget uniform run).mp committed
        have sent : SentSSE (responseOf (look ++ ⟨.newRequestID, suffix⟩ :: ⟨.now, t⟩ ::
            (str ++ tail))) := by
          rw [response]
          exact relayCalls_committed able called _
        have body : (responseOf (look ++ ⟨.newRequestID, suffix⟩ :: ⟨.now, t⟩ ::
            (str ++ tail))).body = String.join (((callbacks etr).map fun call =>
              chunkText (streamContext r a suffix t) call.2.2).map dataEvent) ++
            written (httpCalls tail) := by
          rw [response, Response.applyAll_body, String.empty_append, written_append,
            relayCalls_written able]
        rw [WellFramed, body, ends.framed_iff (chunkTexts_payload _ _)]
        simp [sent, committed]
      · have unflushed : ∀ failure, outcome = .error failure → failure.flushed = false :=
          fun failure => unflushed_of_uncommitted budget uniform run committed
        obtain ⟨unsent, refused, finished⟩ := ends.unsent unflushed
        rw [relayCalls_of_uncommitted budget uniform run suffix t committed, List.nil_append] at response
        rw [WellFramed, response]
        simp only [unsent, false_imp_iff, not_false_eq_true, true_imp_iff, true_and, committed,
          false_iff]
        cases outcome with
        | ok result =>
            refine iff_of_false ?_ (by simp)
            rintro ⟨-, failure, -, error⟩
            exact finished result rfl _ error
        | error failure =>
            refine iff_of_true ⟨etr, failure, inside failure rfl, refused failure rfl⟩ ?_
            simp [unflushed failure rfl]

/-- Content and then an error: chunks and one error event. -/
theorem broken_stream_wellFramed :
    let a := afterReserve oneProvider ⟨{ hello with stream := true }, caller,
      [⟨[⟨"primary", "large", 1⟩]⟩], none⟩ 0
    let run := exec (smooth (calm (fun _ => ⟨.error (.other "unused"), 0⟩)
      (fun _ => ⟨[{ content := "Hel" }, { content := "lo" }], some (.other "reset"), 0⟩) []))
      (handleStreamingChatCompletion oneProvider (asked a.req) a) []
    cacheHits run.1 = [] ∧ WritesSucceed run.1 ∧ WellFramed oneProvider (asked a.req) a run.1 := by
  intro a run
  have miss : cacheHits run.1 = [] := by decide +kernel
  have writes : WritesSucceed run.1 := by decide +kernel
  refine ⟨miss, writes, ?_⟩
  apply (streaming_wellFramed_iff (by decide) (exec_runs _ _ _ : Runs _ run.1 run.2) miss writes).mpr
  have replies : streamReplies (engineEvents run.1) =
      [⟨[{ content := "Hel" }, { content := "lo" }], some (.other "reset"), 0⟩] := by decide +kernel
  rw [replies]
  exact iff_of_true ⟨rfl, _, List.mem_singleton_self _, by simp⟩
    (.inr ⟨rfl, _, List.mem_singleton_self _, _, List.mem_cons_self, by decide⟩)

/-- A delta without content and then a 503: the error is written into the event stream. -/
theorem empty_delta_mixes_formats :
    let a := afterReserve oneProvider ⟨{ hello with stream := true }, caller,
      [⟨[⟨"primary", "large", 1⟩]⟩], none⟩ 0
    let run := exec (smooth (calm (fun _ => ⟨.error (.other "unused"), 0⟩)
      (fun _ => ⟨[{}], some (.api { statusCode := 503, message := "down" }), 0⟩) []))
      (handleStreamingChatCompletion oneProvider (asked a.req) a) []
    cacheHits run.1 = [] ∧ WritesSucceed run.1 ∧ SentSSE (responseOf run.1) ∧
      (responseOf run.1).body =
        dataEvent (chunkText (streamContext (asked a.req) a "1" 0) {}) ++
          encodeLine (errorPayload "provider error (status 503): down" "r1") ∧
      ¬ WellFramed oneProvider (asked a.req) a run.1 := by
  intro a run
  have sent : SentSSE (responseOf run.1) := by decide +kernel
  have body : (responseOf run.1).body =
      dataEvent (chunkText (streamContext (asked a.req) a "1" 0) {}) ++
        encodeLine (errorPayload "provider error (status 503): down" "r1") := by decide +kernel
  refine ⟨by decide +kernel, by decide +kernel, sent, body, ?_⟩
  intro framed
  have events := framed.1 sent
  rw [body] at events
  exact not_framed_of_error events

end Gateway.Server
