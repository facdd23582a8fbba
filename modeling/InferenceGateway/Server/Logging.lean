import InferenceGateway.Server.Framing

/-! The request log. Its writer keeps the status of the last WriteHeader call and the client
gets that of the first; they differ on one path of the streaming handler only. -/
namespace Gateway.Server
open Gateway.Providers Gateway.Retry EventStream Http
open Interaction hiding Program.perform
open Interaction.Program hiding pure perform

structure StatusCapturingWriter where
  responseWriter : Response := {}
  status : Int := 0

/-- The writer below is that of net/http, which can be flushed. -/
def StatusCapturingWriter.apply (w : StatusCapturingWriter) : Call → StatusCapturingWriter
  | .setHeader name value => { w with responseWriter := w.responseWriter.apply (.setHeader name value) }
  | .writeHeader status => ⟨w.responseWriter.apply (.writeHeader status), status⟩
  | .write text => ⟨w.responseWriter.apply (.write text), if w.status = 0 then 200 else w.status⟩
  | .flush => { w with responseWriter := w.responseWriter.apply .flush }

def StatusCapturingWriter.applyAll (w : StatusCapturingWriter) (calls : List Call) :
    StatusCapturingWriter := calls.foldl apply w

structure LogLine where
  requestID : String
  method : String
  path : String
  status : Int
  durationMs : Int
  deriving DecidableEq

/-- The response and the line of a request whose handler made the calls of a trace. -/
def withRequestLogging (requestID method path : String) (start finish : Int64) (tr : Trace) :
    Response × LogLine :=
  let sw := ({} : StatusCapturingWriter).applyAll (httpCalls tr)
  (sw.responseWriter,
    ⟨requestID, method, path, sw.status, ((finish - start) / 1000000).toInt⟩)

section Writer
variable {w : StatusCapturingWriter} {status : Int} {calls later : List Call}

theorem StatusCapturingWriter.applyAll_append (w : StatusCapturingWriter) (calls later : List Call) :
    w.applyAll (calls ++ later) = (w.applyAll calls).applyAll later := List.foldl_append

theorem StatusCapturingWriter.apply_response (w : StatusCapturingWriter) (call : Call) :
    (w.apply call).responseWriter = w.responseWriter.apply call := by
  cases call <;> rfl

/-- The client receives what it would without the log. -/
theorem StatusCapturingWriter.applyAll_response (w : StatusCapturingWriter) (calls : List Call) :
    (w.applyAll calls).responseWriter = w.responseWriter.applyAll calls := by
  induction calls generalizing w with
  | nil => rfl
  | cons call calls ih =>
      have rest := ih (w.apply call)
      rw [apply_response] at rest
      exact rest

/-- Nothing has been sent. -/
def StatusCapturingWriter.Blank (w : StatusCapturingWriter) : Prop :=
  w.responseWriter.committed = none ∧ w.status = 0

/-- One status went out and another may have been kept; zero stands for none. -/
def StatusCapturingWriter.Shows (w : StatusCapturingWriter) (sent kept : Int) : Prop :=
  (∃ header, w.responseWriter.committed = some (sent, header)) ∧ (kept ≠ 0 → w.status = kept)

/-- Calls that leave the status alone once there is one. -/
def Mute : Call → Prop
  | .writeHeader _ => False
  | .setHeader _ _ | .write _ | .flush => True

theorem StatusCapturingWriter.Shows.apply {sent kept : Int} (h : w.Shows sent kept) {call : Call}
    (mute : Mute call) : (w.apply call).Shows sent kept := by
  obtain ⟨⟨header, out⟩, held⟩ := h
  refine ⟨⟨header, ?_⟩, ?_⟩
  · rw [apply_response]
    exact Response.apply_committed call out
  · intro nonzero
    cases call with
    | writeHeader status => exact mute.elim
    | setHeader name value => exact held nonzero
    | flush => exact held nonzero
    | write text =>
        show (if w.status = 0 then 200 else w.status) = kept
        rw [held nonzero, if_neg nonzero]

theorem StatusCapturingWriter.Shows.applyAll {sent kept : Int} (h : w.Shows sent kept)
    (mute : ∀ call ∈ calls, Mute call) : (w.applyAll calls).Shows sent kept := by
  induction calls generalizing w with
  | nil => exact h
  | cons call calls ih =>
      rw [List.forall_mem_cons] at mute
      exact ih (h.apply mute.1) mute.2

/-- Calls that send a status and have it kept. -/
def Opens (calls : List Call) (status : Int) : Prop :=
  ∀ w : StatusCapturingWriter, w.Blank → (w.applyAll calls).Shows status status

theorem Opens.setHeader (h : Opens calls status) (name value : String) :
    Opens (.setHeader name value :: calls) status := fun _ blank => h _ blank

theorem opens_writeHeader (mute : ∀ call ∈ calls, Mute call) :
    Opens (.writeHeader status :: calls) status := by
  intro w blank
  have first : (w.apply (.writeHeader status)).Shows status status := by
    refine ⟨⟨w.responseWriter.header, ?_⟩, fun _ => rfl⟩
    simp only [StatusCapturingWriter.apply, Response.apply, Response.commit, blank.1]
  exact first.applyAll mute

theorem opens_write (text : String) (mute : ∀ call ∈ calls, Mute call) :
    Opens (.write text :: calls) 200 := by
  intro w blank
  have first : (w.apply (.write text)).Shows 200 200 := by
    refine ⟨⟨w.responseWriter.header, ?_⟩, fun _ => if_pos blank.2⟩
    simp only [StatusCapturingWriter.apply, Response.apply, Response.commit, blank.1]
  exact first.applyAll mute

theorem Opens.append (h : Opens calls status) (mute : ∀ call ∈ later, Mute call) :
    Opens (calls ++ later) status := by
  intro w blank
  rw [StatusCapturingWriter.applyAll_append]
  exact (h w blank).applyAll mute

/-- A second status is kept, though the first has been sent. -/
theorem Opens.again (h : Opens calls status) (name value text : String) (kept : Int) :
    ∀ w : StatusCapturingWriter, w.Blank → (w.applyAll (calls ++
      [.setHeader name value, .writeHeader kept, .write text])).Shows status kept := by
  intro w blank
  obtain ⟨⟨header, out⟩, -⟩ := h w blank
  rw [StatusCapturingWriter.applyAll_append]
  refine ⟨⟨header, ?_⟩, fun nonzero => if_neg nonzero⟩
  rw [StatusCapturingWriter.applyAll_response]
  exact Response.applyAll_committed _ out

end Writer

theorem opens_error (name value text : String) (status : Int) :
    Opens [.setHeader name value, .writeHeader status, .write text] status :=
  (opens_writeHeader (by simp [Mute])).setHeader name value

section Pieces
variable {deps : ChatDeps} {r : Request} {tr : Trace} {u : Unit}

/-- Operations that leave the status alone. -/
def Op.isMute : Op → Prop
  | .http call => Mute call
  | _ => True

theorem mute_of_ops (h : ∀ ev ∈ tr, ev.1.isMute) : ∀ call ∈ httpCalls tr, Mute call := by
  intro call member
  obtain ⟨⟨o, reply⟩, listed, seen⟩ := List.mem_filterMap.mp member
  cases o with
  | http own =>
      cases seen
      exact h _ listed
  | _ => cases seen

theorem writeSSEEvent_mute (event : String) (data : Json.Value) :
    Within Op.isMute (writeSSEEvent event data) := by
  apply Within.bind
  · unfold writeEventName
    split
    · exact .perform trivial
    · exact .pure none
  · intro named
    cases named with
    | some err => exact .pure _
    | none => exact .perform trivial

theorem sendChunk_mute (ctx : StreamContext) (d : Delta) : Within Op.isMute (sendChunk ctx d) := by
  refine (writeSSEEvent_mute _ _).bind ?_
  intro failed
  cases failed with
  | some err => exact .pure _
  | none => exact .perform_bind trivial fun _ => .pure none

theorem writeJSONError_opens {status : Int} {message : String}
    (h : Runs (writeJSONError r status message) tr u) : Opens (httpCalls tr) status := by
  obtain ⟨-, _, rfl, typed⟩ := runs_perform_bind.mp h
  obtain ⟨-, _, rfl, sent⟩ := runs_perform_bind.mp typed
  obtain ⟨w, _, rfl, ended⟩ := runs_perform_bind.mp sent
  obtain ⟨rfl, -⟩ := runs_pure.mp ended
  exact opens_error _ _ _ _

theorem writeRateLimitRejection_opens {d : RateLimit.Decision}
    (h : Runs (writeRateLimitRejection r d) tr u) : Opens (httpCalls tr) 429 := by
  obtain ⟨-, _, rfl, h⟩ := runs_perform_bind.mp h
  obtain ⟨-, _, rfl, h⟩ := runs_perform_bind.mp h
  obtain ⟨-, _, rfl, h⟩ := runs_perform_bind.mp h
  exact (((writeJSONError_opens h).setHeader _ _).setHeader _ _).setHeader _ _

theorem reportEngineError_opens {err : EngineError} {attempts : List Attempt}
    (h : Runs (reportEngineError r err attempts) tr u) : Opens (httpCalls tr) (engineStatus err) := by
  obtain ⟨w, rfl⟩ := runs_reportEngineError h
  unfold attemptsHeader
  split
  · exact opens_error _ _ _ _
  · exact (opens_error _ _ _ _).setHeader _ _

theorem writeCachedResponse_opens {tier : CacheTier} {resp : CanonicalResponse}
    (h : Runs (writeCachedResponse tier resp) tr u) : Opens (httpCalls tr) 200 := by
  obtain ⟨-, _, rfl, h⟩ := runs_perform_bind.mp h
  obtain ⟨-, _, rfl, h⟩ := runs_perform_bind.mp h
  obtain ⟨-, _, rfl, h⟩ := runs_perform_bind.mp h
  obtain ⟨w, _, rfl, ended⟩ := runs_perform_bind.mp h
  obtain ⟨rfl, -⟩ := runs_pure.mp ended
  exact (opens_error _ _ _ _).setHeader _ _

theorem writeCachedStream_opens {tier : CacheTier} {resp : CanonicalResponse}
    (h : Runs (writeCachedStream r tier resp) tr u) : Opens (httpCalls tr) 200 := by
  unfold writeCachedStream at h
  split at h
  · exact writeCachedResponse_opens h
  · obtain ⟨-, _, rfl, h⟩ := runs_perform_bind.mp h
    obtain ⟨-, _, rfl, h⟩ := runs_perform_bind.mp h
    obtain ⟨-, _, rfl, h⟩ := runs_perform_bind.mp h
    obtain ⟨-, _, rfl, h⟩ := runs_perform_bind.mp h
    obtain ⟨-, rest, rfl, events⟩ := runs_perform_bind.mp h
    have mute : ∀ ev ∈ rest, ev.1.isMute := by
      refine Within.runs ?_ events
      exact .perform_bind trivial fun _ => .perform_bind trivial fun _ =>
        (writeSSEEvent_mute _ _).bind fun _ => .perform_bind trivial fun _ =>
        (writeSSEEvent_mute _ _).bind fun _ => .perform_bind trivial fun _ =>
        .perform_bind trivial fun _ => .perform trivial
    exact ((((opens_writeHeader (mute_of_ops mute)).setHeader _ _).setHeader _ _).setHeader _ _).setHeader _ _

theorem setCacheTTLHeader_opens {lib : Library} {ttlOverride : Option Duration} {status : Int}
    {calls : List Call} (h : Runs (setCacheTTLHeader lib ttlOverride) tr u) (next : Opens calls status) :
    Opens (httpCalls tr ++ calls) status := by
  unfold setCacheTTLHeader at h
  split at h
  · rw [runs_perform.mp h]
    exact next.setHeader _ _
  · rw [(runs_pure.mp h).1]
    exact next

theorem writeCompletion_opens {a : Admitted} {result : Result} {response : CanonicalResponse}
    (h : Runs (writeCompletion deps a result response) tr u) : Opens (httpCalls tr) 200 := by
  obtain ⟨-, _, rfl, h⟩ := runs_perform_bind.mp h
  obtain ⟨-, _, rfl, h⟩ := runs_perform_bind.mp h
  obtain ⟨-, _, rfl, h⟩ := runs_perform_bind.mp h
  obtain ⟨hint, _, rest, rfl, ttl, h⟩ := runs_bind.mp h
  obtain ⟨-, _, rfl, h⟩ := runs_perform_bind.mp h
  obtain ⟨-, _, rfl, h⟩ := runs_perform_bind.mp h
  obtain ⟨w, _, rfl, ended⟩ := runs_perform_bind.mp h
  obtain ⟨rfl, -⟩ := runs_pure.mp ended
  show Opens (_ :: _ :: _ :: httpCalls (hint ++ _)) 200
  rw [httpCalls_append]
  exact (((setCacheTTLHeader_opens ttl (opens_error _ _ _ _)).setHeader _ _).setHeader _ _).setHeader _ _

theorem commitCalls_opens (deps : ChatDeps) (ctx : StreamContext) (providerName : String) :
    Opens (commitCalls deps ctx providerName) 200 := by
  have status : Opens [.writeHeader 200] 200 := opens_writeHeader (by simp)
  unfold commitCalls
  cases ctx.ttlOverride with
  | none => exact ((((status.setHeader _ _).setHeader _ _).setHeader _ _).setHeader _ _).setHeader _ _
  | some d =>
      exact (((((status.setHeader _ _).setHeader _ _).setHeader _ _).setHeader _ _).setHeader _ _).setHeader _ _

/-- The callbacks of a run send nothing, or a status of 200 with the first of them. -/
theorem handled_relay_opens {ctx : StreamContext} {etr : Retry.Trace} {str : Trace} {s : StreamState}
    (h : Handled (relay deps ctx) {} etr str s) :
    httpCalls str = [] ∨ ctx.canFlush = true ∧ callbacks etr ≠ [] ∧ Opens (httpCalls str) 200 := by
  let Inv (etr : Retry.Trace) (str : Trace) (s : StreamState) : Prop :=
    s.headersSent = false ∧ httpCalls str = [] ∨
      s.headersSent = true ∧ ctx.canFlush = true ∧ callbacks etr ≠ [] ∧ Opens (httpCalls str) 200
  have start : Inv [] [] {} := .inl ⟨rfl, rfl⟩
  suffices whole : Inv ([] ++ etr) ([] ++ str) s from whole.imp And.right And.right
  apply h.invariant start
  rintro done past s ⟨o, reply⟩ own s' held run
  have kept : callbacks done ≠ [] → callbacks (done ++ [⟨o, reply⟩]) ≠ [] := by
    intro some
    rw [callbacks_append]
    exact List.append_ne_nil_of_left_ne_nil some _
  by_cases other : ∀ name model d, o ≠ .onDelta name model d
  · obtain ⟨rfl, rfl⟩ := relay_passes other run
    have silent : httpCalls (past ++ [⟨.engine o, reply⟩]) = httpCalls past := by
      rw [httpCalls_append]
      exact List.append_nil _
    rcases held with ⟨unsent, none⟩ | ⟨sent, able, some, opens⟩
    · exact .inl ⟨unsent, silent.trans none⟩
    · exact .inr ⟨sent, able, kept some, silent ▸ opens⟩
  · simp only [not_forall, not_not] at other
    obtain ⟨name, model, d, rfl⟩ := other
    have called : callbacks (done ++ [⟨.onDelta name model d, reply⟩]) ≠ [] := by
      rw [callbacks_append]
      exact List.append_ne_nil_of_right_ne_nil _ (List.cons_ne_nil _ _)
    obtain ⟨next, ⟨unsent, unable, rfl, -⟩ | ⟨out, chunk⟩ |
      ⟨unsent, able, head, tail, rfl, commit, chunk⟩⟩ := onDelta_cases run
    · rcases held with ⟨-, none⟩ | ⟨sent, able, -⟩
      · exact .inl ⟨by simp [next, unsent, unable], by rw [List.append_nil]; exact none⟩
      · rw [unable] at able
        cases able
    · rcases held with ⟨unsent, -⟩ | ⟨sent, able, some, opens⟩
      · rw [out] at unsent
        cases unsent
      · refine .inr ⟨by simp [next, out], able, called, ?_⟩
        rw [httpCalls_append]
        exact opens.append (mute_of_ops ((sendChunk_mute _ _).runs chunk))
    · rcases held with ⟨-, none⟩ | ⟨sent, -⟩
      · refine .inr ⟨by simp [next, able], able, called, ?_⟩
        rw [httpCalls_append, httpCalls_append, none, commitStream_calls commit]
        exact (commitCalls_opens _ _ _).append (mute_of_ops ((sendChunk_mute _ _).runs chunk))
      · rw [unsent] at sent
        cases sent

/-- An ending starts to write at once, or it is the engine's error. -/
theorem endStream_status {a : Admitted} {ctx : StreamContext} {lookup : CacheLookup} {s : StreamState}
    {outcome : Except StreamError StreamResult} {out : Ended}
    (h : Runs (endStream deps r a ctx lookup s outcome) tr out) :
    (∃ text later, httpCalls tr = .write text :: later ∧ ∀ call ∈ later, Mute call) ∨
      ∃ failure, outcome = .error failure ∧ failure.flushed = false ∧ httpCalls tr =
        [.setHeader "Content-Type" "application/json", .writeHeader (engineStatus failure.err),
          .write (encodeLine (errorPayload failure.err.error r.requestID))] := by
  have flushing : ∀ {calls : List Call}, (∀ call ∈ calls, call = .flush) → ∀ call ∈ calls, Mute call := by
    intro calls only call member
    rw [only call member]
    trivial
  cases outcome with
  | ok result =>
      obtain ⟨flushes, calls, only⟩ := finishStream_calls h
      exact .inl ⟨_, flushes, calls, flushing only⟩
  | error failure =>
      cases flushed : failure.flushed with
      | false =>
          obtain ⟨-, w, own, rfl, error⟩ := handleStreamError_unflushed flushed h
          have calls := reportEngineError_calls error
          exact .inr ⟨failure, rfl, flushed, calls⟩
      | true =>
          obtain ⟨-, w, event, err, own, t, entry, -, rfl, sent, push⟩ :=
            handleStreamError_flushed flushed h
          obtain ⟨named, failed, rest, rfl, first, last⟩ := runs_bind.mp sent
          have name : Runs (write "event: error\n") named failed := first
          rw [write, runs_perform] at name
          subst name
          have data : ∀ ev ∈ rest, ev.1.isMute := by
            refine Within.runs ?_ last
            cases failed with
            | some err => exact .pure _
            | none => exact .perform trivial
          refine .inl ⟨"event: error\n", httpCalls rest ++ httpCalls own, ?_, ?_⟩
          · show _ :: httpCalls (rest ++ (own ++ ([⟨.now, t⟩] ++ rows deps entry))) = _
            rw [httpCalls_append, httpCalls_append, httpCalls_append, rows_httpCalls]
            show _ :: (httpCalls rest ++ (httpCalls own ++ [])) = _
            rw [List.append_nil]
          · intro call member
            rcases List.mem_append.mp member with early | late
            · exact mute_of_ops data call early
            · exact flushing (runs_flushIf push) call late

theorem finishCacheHit_silent {identity : Auth.Identity} {tier : CacheTier} {cached : CanonicalResponse}
    {start : Int64} {out : Ended} (h : Runs (finishCacheHit deps r identity tier cached start) tr out) :
    httpCalls tr = [] := by
  obtain ⟨-, t, entry, -, rfl⟩ := finishCacheHit_cases h
  exact rows_httpCalls deps entry

/-- A cached response is answered with the status it is written with. -/
theorem hit_opens {look own tail : Trace} {ev : Event Op Op.Reply} {status : Int}
    (silent : httpCalls look = []) (unseen : httpCall ev = none) (opens : Opens (httpCalls own) status)
    (after : httpCalls tail = []) : Opens (httpCalls (look ++ ev :: (own ++ tail))) status := by
  have calls : httpCalls (look ++ ev :: (own ++ tail)) = httpCalls own := by
    rw [httpCalls_append, silent, List.nil_append, httpCalls, List.filterMap_cons_none unseen]
    show httpCalls (own ++ tail) = _
    rw [httpCalls_append, after, List.append_nil]
  rw [calls]
  exact opens

theorem lookup_silent {a : Admitted} {found : Lookup}
    (h : Runs (checkCaches deps a.req a.identity) tr found) : httpCalls tr = [] :=
  httpCalls_of_lookup ((checkCaches_within _ _ _).runs h)

/-- A stream that had nothing but its headers sent is answered a second time. -/
theorem handleStreamingChatCompletion_status {a : Admitted} {out : Ended}
    (h : Runs (handleStreamingChatCompletion deps r a) tr out) :
    (∃ status, Opens (httpCalls tr) status) ∨
      ∃ etr failure, StreamedIn deps a.tiers a.req tr etr (.error failure) ∧ r.canFlush = true ∧
        callbacks etr ≠ [] ∧ failure.flushed = false ∧ ∀ w : StatusCapturingWriter, w.Blank →
          (w.applyAll (httpCalls tr)).Shows 200 (engineStatus failure.err) := by
  cases handleStreamingChatCompletion_cases h with
  | hit lookup written finish =>
      exact .inl ⟨200, hit_opens (lookup_silent lookup) rfl (writeCachedStream_opens written)
        (finishCacheHit_silent finish)⟩
  | @streamed look str tail etr suffix t lookup s outcome out looked run handled ending =>
      have calls : httpCalls (look ++ ⟨.newRequestID, suffix⟩ :: ⟨.now, t⟩ :: (str ++ tail)) =
          httpCalls str ++ httpCalls tail := by
        rw [httpCalls_append, lookup_silent looked, ← httpCalls_append]
        rfl
      rw [calls]
      rcases endStream_status ending with ⟨text, later, written, mute⟩ | ⟨failure, rfl, unflushed, error⟩
      · have continued : ∀ call ∈ httpCalls tail, Mute call := by
          rw [written]
          exact List.forall_mem_cons.mpr ⟨trivial, mute⟩
        rcases handled_relay_opens handled with none | ⟨-, -, opens⟩
        · rw [none, List.nil_append, written]
          exact .inl ⟨200, opens_write text mute⟩
        · exact .inl ⟨200, opens.append continued⟩
      · rw [error]
        rcases handled_relay_opens handled with none | ⟨able, called, opens⟩
        · rw [none]
          exact .inl ⟨_, opens_error _ _ _ _⟩
        · refine .inr ⟨etr, failure, ?_, able, called, unflushed, opens.again _ _ _ _⟩
          exact ⟨_, look ++ [⟨.newRequestID, suffix⟩, ⟨.now, t⟩], str, tail, s, by simp, run, handled⟩

theorem completeChat_status {a : Admitted} (h : Runs (completeChat deps r a) tr .returned) :
    ∃ status, Opens (httpCalls tr) status := by
  cases completeChat_cases h with
  | hit lookup written finish =>
      exact ⟨200, hit_opens (lookup_silent lookup) rfl (writeCachedResponse_opens written)
        (finishCacheHit_silent finish)⟩
  | @failed look own etr lookup failure w looked run error =>
      rw [httpCalls_append, lookup_silent looked, httpCalls_append, httpCalls_lift]
      have opens := reportEngineError_opens error
      exact ⟨engineStatus failure.err, opens⟩
  | @finished look tail etr lookup result out looked run finish =>
      rw [httpCalls_append, lookup_silent looked, httpCalls_append, httpCalls_lift]
      refine ⟨200, ?_⟩
      cases answered : result.response with
      | none =>
          simp only [finishCompletion, answered] at finish
          cases (runs_pure.mp finish).2
      | some answer =>
          obtain ⟨-, http, store, w, t, entry, -, rfl, written, stored⟩ := finishCompletion_cases answered finish
          have kept := httpCalls_of_store ((storeInCaches_within _ _ _ _).runs stored)
          show Opens (httpCalls (http ++ (store ++ ([_, _] ++ rows deps entry)))) 200
          rw [httpCalls_append, httpCalls_append, httpCalls_append, kept, rows_httpCalls]
          exact (writeCompletion_opens written).append (by simp [httpCalls, httpCall])

/-- A refusal is one piece of writing. -/
theorem refusal_opens {piece : ServerM Unit} {status : Int} {out : Ended}
    (opens : ∀ {own : Trace} {u : Unit}, Runs piece own u → Opens (httpCalls own) status)
    (h : Runs (piece >>= fun _ => pure Ended.returned) tr out) : Opens (httpCalls tr) status := by
  obtain ⟨own, u, last, rfl, written, done⟩ := runs_bind.mp h
  obtain ⟨rfl, rfl⟩ := runs_pure.mp done
  rw [List.append_nil]
  exact opens written

theorem StreamedIn.append {tiers : List Tier} {req : CanonicalRequest} {etr : Retry.Trace}
    {out : Except StreamError StreamResult} (past : Trace) (h : StreamedIn deps tiers req tr etr out) :
    StreamedIn deps tiers req (past ++ tr) etr out := by
  obtain ⟨ctx, before, str, after, s, rfl, run, handled⟩ := h
  exact ⟨ctx, past ++ before, str, after, s, by simp, run, handled⟩

theorem handleChatCompletions_status (h : Runs (handleChatCompletions deps r) tr .returned) :
    (∃ status, Opens (httpCalls tr) status) ∨
      ∃ p etr failure, prepare deps r = .ok p ∧ p.req.stream = true ∧
        StreamedIn deps p.tiers p.req tr etr (.error failure) ∧ r.canFlush = true ∧
        callbacks etr ≠ [] ∧ failure.flushed = false ∧ ∀ w : StatusCapturingWriter, w.Blank →
          (w.applyAll (httpCalls tr)).Shows 200 (engineStatus failure.err) := by
  obtain ⟨start, rest, rfl, checked⟩ := runs_perform_bind.mp h
  cases hp : prepare deps r with
  | error refusal =>
      simp only [hp] at checked
      have opens := refusal_opens writeJSONError_opens checked
      exact .inl ⟨refusal.1, opens⟩
  | ok p =>
      simp only [hp] at checked
      obtain ⟨decided, rest, rfl, after⟩ := runs_perform_bind.mp checked
      cases decided with
      | error err =>
          have opens := refusal_opens writeJSONError_opens after
          exact .inl ⟨500, opens⟩
      | ok decision =>
          cases hd : decision.allowed with
          | false =>
              simp only [hd, Bool.not_false, if_true] at after
              have opens := refusal_opens writeRateLimitRejection_opens after
              exact .inl ⟨429, opens⟩
          | true =>
              simp only [hd, Bool.not_true, Bool.false_eq_true, if_false] at after
              cases hs : p.req.stream with
              | false =>
                  simp only [hs, Bool.false_eq_true, if_false] at after
                  obtain ⟨status, opens⟩ := completeChat_status after
                  exact .inl ⟨status, opens⟩
              | true =>
                  simp only [hs, if_true] at after
                  refine (handleStreamingChatCompletion_status after).imp_right ?_
                  rintro ⟨etr, failure, inside, rest⟩
                  exact ⟨p, etr, failure, rfl, hs, inside.append [_, _], rest⟩

end Pieces

end Gateway.Server
