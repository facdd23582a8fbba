import InferenceGateway.Retry.Producers
import InferenceGateway.Server.Replay

/-! Whom a streamed answer is attributed to. The provider header goes out with the first delta of
any call, while the engine names the provider of the call that ended without an error. -/
namespace Gateway.Server
open Gateway.Providers Gateway.Retry EventStream Http
open Interaction hiding Program.perform
open Interaction.Program hiding pure perform

/-- The provider of a Stream call. -/
def producer (ev : Event Op Op.Reply) : Option String := (engineEvent ev).bind streamedTo

/-- A write of an event other than the closing mark. -/
def isChunk : Event Op Op.Reply → Bool
  | ⟨.http (.write text), _⟩ => text != dataEvent "[DONE]"
  | _ => false

/-- For each chunk written the provider whose Stream call was under way. -/
def chunkProducers (tr : Trace) : List (Option String) := attributed producer isChunk none tr

def providerHeader (response : Response) : Option String :=
  response.committed.bind fun sent => sent.2 "X-Gateway-Provider"

/-- The client is told this provider, and every chunk is of this provider. -/
structure ToldServer (tr : Trace) (provider : String) : Prop where
  header : providerHeader (responseOf tr) = some provider
  chunks : ∀ source ∈ chunkProducers tr, source = some provider

/-- A run in which ExecuteStream returned this result. -/
inductive FinishedStream (deps : ChatDeps) (r : Request) (a : Admitted) : Trace → StreamResult → Prop
  | mk {look str tail : Trace} {etr : Retry.Trace} {suffix : String} {t : Int64}
      {lookup : CacheLookup} {s : StreamState} {result : StreamResult} {out : Ended} :
      Runs (checkCaches deps a.req a.identity) look (none, lookup) →
      Runs (deps.engine.executeStream a.tiers a.req) etr (some (.ok result)) →
      Handled (relay deps (streamContext r a suffix t)) {} etr str s →
      Runs (finishStream deps r a (streamContext r a suffix t) lookup s result) tail out →
      FinishedStream deps r a (look ++ ⟨.newRequestID, suffix⟩ :: ⟨.now, t⟩ :: (str ++ tail)) result

/-- The client can be flushed, some call emits a delta, and all calls that do are made to the
provider of the last call. -/
def ServedAlone (r : Request) (calls : List (String × StreamReply)) : Prop :=
  r.canFlush = true ∧ (∃ call ∈ calls, call.2.deltas ≠ []) ∧
    ∀ last ∈ calls.getLast?, ∀ call ∈ calls, call.2.deltas ≠ [] → call.1 = last.1

theorem dataEvent_eq_mark {payload : String} (single : SingleLine payload)
    (same : dataEvent payload = dataEvent "[DONE]") : payload = "[DONE]" := by
  have mark : SingleLine "[DONE]" := by
    unfold SingleLine
    decide
  exact (dataEvent_append_inj single mark (congrArg (· ++ "") same)).1

theorem isChunk_chunkText (ctx : StreamContext) (d : Delta) (w : Option String) :
    isChunk ⟨.http (.write (dataEvent (chunkText ctx d))), w⟩ = true := by
  obtain ⟨single, other⟩ := chunkText_payload ctx d
  exact bne_iff_ne.mpr fun same => other (dataEvent_eq_mark single same)

/-- Sending a chunk is one write of it, and at most a flush. -/
theorem sendChunk_events {ctx : StreamContext} {d : Delta} {own : Trace} {failed : Option CallError}
    (h : Runs (sendChunk ctx d) own failed) :
    ∃ err rest, own = ⟨.http (.write (dataEvent (chunkText ctx d))), err⟩ :: rest ∧
      ∀ ev ∈ rest, ev = ⟨.http .flush, ()⟩ := by
  obtain ⟨event, err, rest, rfl, first, last⟩ := runs_bind.mp h
  refine ⟨err, rest, congrArg (· ++ rest) (writeSSEEvent_unnamed first), ?_⟩
  cases err with
  | some err =>
      obtain ⟨rfl, -⟩ := runs_pure.mp last
      exact fun ev member => absurd member List.not_mem_nil
  | none =>
      obtain ⟨u, rest, rfl, done⟩ := runs_perform_bind.mp last
      obtain ⟨rfl, -⟩ := runs_pure.mp done
      exact fun ev member => List.mem_singleton.mp member

/-- A chunk is attributed to the call under way, whether or not the client takes it. -/
theorem sendChunk_attributed {ctx : StreamContext} {d : Delta} {own : Trace}
    {failed : Option CallError} (h : Runs (sendChunk ctx d) own failed) (source : Option String)
    (later : Trace) : attributed producer isChunk source (own ++ later) =
      source :: attributed producer isChunk source later := by
  obtain ⟨err, rest, rfl, flushes⟩ := sendChunk_events h
  rw [List.cons_append, attributed_emit (isChunk_chunkText ctx d err), attributed_append_neutral]
  · intro ev member
    rw [flushes ev member]
    rfl
  · intro ev member
    rw [flushes ev member]
    rfl

theorem commitStream_attributed {deps : ChatDeps} {ctx : StreamContext} {providerName : String}
    {head : Trace} (h : Runs (commitStream deps ctx providerName) head ()) (source : Option String)
    (later : Trace) : attributed producer isChunk source (head ++ later) =
      attributed producer isChunk source later := by
  have heads := (commitStream_head deps ctx providerName).runs h
  apply attributed_append_neutral
  · rintro ⟨op, reply⟩ member
    have kind := heads _ member
    cases op with
    | http call => cases call <;> first | rfl | exact kind.elim
    | _ => rfl
  · rintro ⟨op, reply⟩ member
    have kind := heads _ member
    cases op with
    | engine o => exact kind.elim
    | _ => rfl

section Relayed
variable {deps : ChatDeps} {ctx : StreamContext} {s s' : StreamState} {etr : Retry.Trace} {str : Trace}

/-- The chunks written inside ExecuteStream are those of its callbacks. -/
theorem handled_attributed (h : Handled (relay deps ctx) s etr str s') (able : ctx.canFlush = true)
    (source : Option String) : attributed producer isChunk source str = producers source etr := by
  induction h generalizing source with
  | nil _ => rfl
  | @cons _ _ _ o reply rest own later first _ ih =>
      by_cases other : ∀ name model d, o ≠ .onDelta name model d
      · obtain ⟨rfl, -⟩ := relay_passes other first
        have silent : isCallback ⟨o, reply⟩ = false := by
          cases o with
          | onDelta name model d => exact absurd rfl (other name model d)
          | _ => rfl
        rw [List.singleton_append, attributed_start rfl, producers, attributed_start silent]
        exact ih _
      · simp only [not_forall, not_not] at other
        obtain ⟨name, model, d, rfl⟩ := other
        have called : isCallback ⟨.onDelta name model d, reply⟩ = true := rfl
        have chunk : attributed producer isChunk source (own ++ later) =
            source :: attributed producer isChunk source later := by
          obtain ⟨-, ⟨-, unable, -⟩ | ⟨-, chunk⟩ | ⟨-, -, head, tail, rfl, commit, chunk⟩⟩ :=
            onDelta_cases first
          · cases able.symm.trans unable
          · exact sendChunk_attributed chunk source later
          · rw [List.append_assoc, commitStream_attributed commit, sendChunk_attributed chunk]
        rw [chunk, ih source]
        exact (attributed_emit called).symm

theorem commitCalls_provider (deps : ChatDeps) (ctx : StreamContext) (providerName : String)
    (later : List Call) :
    providerHeader (({} : Response).applyAll (commitCalls deps ctx providerName ++ later)) =
      some providerName := by
  have sent : ∃ header, (({} : Response).applyAll (commitCalls deps ctx providerName)).committed =
      some (200, header) ∧ header "X-Gateway-Provider" = some providerName := by
    cases hd : ctx.ttlOverride with
    | none => exact ⟨_, by rw [commitCalls, hd]; rfl, by simp [Response.apply]⟩
    | some d => exact ⟨_, by rw [commitCalls, hd]; rfl, by simp [Response.apply]⟩
  obtain ⟨header, committed, named⟩ := sent
  rw [Response.applyAll_append, providerHeader, Response.applyAll_committed later committed]
  exact named

/-- The header names the provider of the first callback. -/
theorem handled_header (h : Handled (relay deps ctx) s etr str s') (unsent : s.headersSent = false)
    (able : ctx.canFlush = true) {call : String × String × Delta}
    (first : (callbacks etr).head? = some call) (later : List Call) :
    providerHeader (({} : Response).applyAll (httpCalls str ++ later)) = some call.1 := by
  induction h with
  | nil _ => cases first
  | @cons _ _ _ o reply rest own _ run _ ih =>
      rw [httpCalls_append, List.append_assoc]
      by_cases other : ∀ name model d, o ≠ .onDelta name model d
      · obtain ⟨rfl, rfl⟩ := relay_passes other run
        refine ih unsent ?_
        cases o with
        | onDelta name model d => exact absurd rfl (other name model d)
        | _ => exact first
      · simp only [not_forall, not_not] at other
        obtain ⟨name, model, d, rfl⟩ := other
        cases first
        obtain ⟨-, ⟨-, unable, -⟩ | ⟨sent, -⟩ | ⟨-, -, head, tail, rfl, commit, -⟩⟩ :=
          onDelta_cases run
        · cases able.symm.trans unable
        · cases unsent.symm.trans sent
        · rw [httpCalls_append, commitStream_calls commit, List.append_assoc]
          exact commitCalls_provider _ _ _ _

/-- Without a callback that can commit, nothing is sent. -/
theorem handled_uncalled (h : Handled (relay deps ctx) s etr str s') (unsent : s.headersSent = false)
    (none : ctx.canFlush = false ∨ callbacks etr = []) : httpCalls str = [] := by
  induction h with
  | nil _ => rfl
  | @cons _ _ _ o reply rest own _ run _ ih =>
      rw [httpCalls_append]
      by_cases other : ∀ name model d, o ≠ .onDelta name model d
      · obtain ⟨rfl, rfl⟩ := relay_passes other run
        refine ih unsent (none.imp_right fun empty => ?_)
        cases o with
        | onDelta name model d => exact absurd rfl (other name model d)
        | _ => exact empty
      · simp only [not_forall, not_not] at other
        obtain ⟨name, model, d, rfl⟩ := other
        have unable : ctx.canFlush = false := none.resolve_right (List.cons_ne_nil _ _)
        obtain ⟨rfl, ⟨-, -, rfl, -⟩ | ⟨sent, -⟩ | ⟨-, able, -⟩⟩ := onDelta_cases run
        · exact ih (by simp [unsent, unable]) (.inl unable)
        · cases unsent.symm.trans sent
        · cases able.symm.trans unable

end Relayed

namespace FinishedStream
variable {deps : ChatDeps} {r : Request} {a : Admitted} {tr : Trace} {result : StreamResult}

/-- A finished stream is a run of the handler. -/
theorem runs (h : FinishedStream deps r a tr result) :
    ∃ out, Runs (handleStreamingChatCompletion deps r a) tr out := by
  cases h with
  | mk found run handled ending =>
      refine ⟨_, runs_bind.mpr ⟨_, _, _, rfl, found, runs_perform_bind.mpr ⟨_, _, rfl,
        runs_perform_bind.mpr ⟨_, _, rfl, runs_bind.mpr ⟨_, _, _, rfl,
          runs_handle.mpr ⟨_, run, handled⟩, ending⟩⟩⟩⟩⟩

/-- What the calls of a finished stream decide: the chunks and the response are those of the
relay, the last call is the one that served, and then comes the closing mark. -/
structure Parts (deps : ChatDeps) (r : Request) (tr : Trace) (result : StreamResult)
    (ctx : StreamContext) (etr : Retry.Trace) (str : Trace) (s : StreamState) (init : List StreamCall)
    (last : StreamCall) : Prop where
  able : ctx.canFlush = r.canFlush
  handled : Handled (relay deps ctx) {} etr str s
  logged : Logged etr (init ++ [last])
  served : last.name = result.provider
  calls : streamCalls (engineEvents tr) = (init ++ [last]).map fun c => (c.name, c.reply)
  chunks : chunkProducers tr = attributed producer isChunk none str
  response : ∃ flushes, (∀ call ∈ flushes, call = .flush) ∧
    responseOf tr = ({} : Response).applyAll
      (httpCalls str ++ .write (dataEvent "[DONE]") :: flushes)

theorem parts (budget : 1 ≤ deps.engine.cfg.maxAttemptsPerProvider)
    (h : FinishedStream deps r a tr result) :
    ∃ ctx etr str s init last, Parts deps r tr result ctx etr str s init last := by
  cases h with
  | @mk look str tail etr suffix t lookup s _ out found run handled ending =>
      obtain ⟨calls, logged, concluded⟩ := Engine.executeStream_log budget run
      cases concluded with
      | ok _ succeeded =>
          obtain ⟨init, last, rfl, -, -, served, -, -⟩ := succeeded
          have looked := (checkCaches_within _ _ _).runs found
          have ended := (finishStream_within _ _ _ _ _ _ _).runs ending
          obtain ⟨flushes, calls, only⟩ := finishStream_calls ending
          refine ⟨_, etr, str, s, init, last, rfl, handled, logged, served, ?_, ?_, flushes, only, ?_⟩
          · rw [engineEvents_append, engineEvents_of_lookup looked]
            change streamCalls (engineEvents (str ++ tail)) = _
            rw [engineEvents_append, engineEvents_of_ending ended, List.append_nil, ← logged.streamCalls,
              (relayedRun_of_handled handled).calls]
            unfold streamCalls
            rw [List.filterMap_filter]
            apply List.filterMap_congr
            rintro ⟨op, reply⟩ -
            cases op <;> rfl
          · have outside : ∀ ev ∈ look, isChunk ev = false ∧ producer ev = none := by
              rintro ⟨op, reply⟩ member
              have kind := looked _ member
              cases op <;> first | exact ⟨rfl, rfl⟩ | exact kind.elim
            have closing : ∀ ev ∈ tail, isChunk ev = false := by
              rintro ⟨op, reply⟩ member
              cases op with
              | http call =>
                  cases call with
                  | write text =>
                      rw [finishStream_writes ending member]
                      exact bne_self_eq_false _
                  | _ => rfl
              | _ => rfl
            rw [chunkProducers, attributed_append_neutral (fun ev member => (outside ev member).1)
              fun ev member => (outside ev member).2, attributed_neutral rfl rfl,
              attributed_neutral rfl rfl, attributed_append_silent closing]
          · rw [responseOf, httpCalls_append, httpCalls_of_lookup looked]
            change ({} : Response).applyAll (httpCalls (str ++ tail)) = _
            rw [httpCalls_append, calls]

/-- The provider of the result is that of the last call. -/
theorem last_call (budget : 1 ≤ deps.engine.cfg.maxAttemptsPerProvider)
    (h : FinishedStream deps r a tr result) :
    (streamCalls (engineEvents tr)).getLast?.map Prod.fst = some result.provider := by
  obtain ⟨ctx, etr, str, s, init, last, parts⟩ := h.parts budget
  rw [parts.calls, ← parts.served]
  simp

variable {ctx : StreamContext} {etr : Retry.Trace} {str : Trace} {s : StreamState}
  {init : List StreamCall} {last : StreamCall}

theorem Parts.servedAlone_iff (h : Parts deps r tr result ctx etr str s init last) :
    ServedAlone r (streamCalls (engineEvents tr)) ↔ r.canFlush = true ∧
      (∃ c ∈ init ++ [last], c.reply.deltas ≠ []) ∧
      ∀ c ∈ init ++ [last], c.reply.deltas ≠ [] → c.name = result.provider := by
  have final : ((init ++ [last]).map fun c => (c.name, c.reply)).getLast? =
      some (last.name, last.reply) := by simp
  rw [h.calls, ServedAlone, final, ← h.served]
  simp only [List.mem_map, exists_exists_and_eq_and, Option.mem_some_iff, forall_eq',
    forall_exists_index, and_imp, forall_apply_eq_imp_iff₂]

/-- Without a delta for a client that can be flushed no provider is named. -/
theorem Parts.header_none (h : Parts deps r tr result ctx etr str s init last)
    (uncalled : r.canFlush = false ∨ callbacks etr = []) : providerHeader (responseOf tr) = none := by
  obtain ⟨flushes, -, response⟩ := h.response
  have silent : httpCalls str = [] :=
    handled_uncalled h.handled rfl (uncalled.imp_left h.able.trans)
  have closed : (({} : Response).apply (.write (dataEvent "[DONE]"))).committed =
      some (200, fun _ => none) := rfl
  rw [response, silent, List.nil_append, providerHeader]
  exact congrArg (Option.bind · fun sent => sent.2 "X-Gateway-Provider")
    (Response.applyAll_committed flushes closed)

theorem Parts.toldServer_iff (h : Parts deps r tr result ctx etr str s init last) :
    ToldServer tr result.provider ↔ ServedAlone r (streamCalls (engineEvents tr)) := by
  rw [h.servedAlone_iff]
  constructor
  · rintro ⟨header, chunks⟩
    have able : r.canFlush = true := by
      by_contra unable
      rw [h.header_none (.inl (Bool.eq_false_iff.mpr unable))] at header
      cases header
    have called : callbacks etr ≠ [] := by
      intro none
      rw [h.header_none (.inr none)] at header
      cases header
    refine ⟨able, ?_, ?_⟩
    · obtain ⟨call, member⟩ := List.exists_mem_of_ne_nil _ called
      obtain ⟨c, listed, emits, -⟩ := h.logged.callback_named member
      exact ⟨c, listed, emits⟩
    · intro c listed emits
      have own : some c.name ∈ producers none etr :=
        h.logged.mem_producers.mpr ⟨c, listed, emits, rfl⟩
      rw [← handled_attributed h.handled (h.able.trans able), ← h.chunks] at own
      exact Option.some.inj (chunks _ own)
  · rintro ⟨able, ⟨c, listed, emits⟩, alone⟩
    have flush : ctx.canFlush = true := h.able.trans able
    constructor
    · obtain ⟨call, rest, first⟩ :=
        List.exists_cons_of_ne_nil (h.logged.callbacks_ne_nil listed emits)
      obtain ⟨c, listed, emits, named⟩ := h.logged.callback_named (first ▸ List.mem_cons_self)
      obtain ⟨flushes, -, response⟩ := h.response
      rw [response, handled_header h.handled rfl flush (first ▸ List.head?_cons), named,
        alone c listed emits]
    · intro source member
      rw [h.chunks, handled_attributed h.handled flush] at member
      obtain ⟨c, listed, emits, rfl⟩ := h.logged.mem_producers.mp member
      rw [alone c listed emits]

end FinishedStream

/-- The texts a relay writes are chunks. -/
theorem handled_writes {deps : ChatDeps} {ctx : StreamContext} {s s' : StreamState}
    {etr : Retry.Trace} {str : Trace} (h : Handled (relay deps ctx) s etr str s') {text : String}
    {w : Option String} (member : (⟨.http (.write text), w⟩ : Event Op Op.Reply) ∈ str) :
    ∃ d, text = dataEvent (chunkText ctx d) := by
  have sent {d : Delta} {own : Trace} {failed : Option CallError} (run : Runs (sendChunk ctx d) own failed)
      (here : (⟨.http (.write text), w⟩ : Event Op Op.Reply) ∈ own) :
      ∃ d, text = dataEvent (chunkText ctx d) := by
    obtain ⟨err, rest, rfl, flushes⟩ := sendChunk_events run
    rcases List.mem_cons.mp here with event | later
    · cases event
      exact ⟨d, rfl⟩
    · cases flushes _ later
  induction h with
  | nil _ => cases member
  | @cons _ _ _ o reply rest own _ run _ ih =>
      rcases List.mem_append.mp member with early | late
      · by_cases other : ∀ name model d, o ≠ .onDelta name model d
        · obtain ⟨rfl, -⟩ := relay_passes other run
          cases List.mem_singleton.mp early
        · simp only [not_forall, not_not] at other
          obtain ⟨name, model, d, rfl⟩ := other
          obtain ⟨-, ⟨-, -, rfl, -⟩ | ⟨-, chunk⟩ | ⟨-, -, head, tail, rfl, commit, chunk⟩⟩ :=
            onDelta_cases run
          · cases early
          · exact sent chunk early
          · rcases List.mem_append.mp early with header | body
            · exact ((commitStream_head _ _ _).runs commit _ header).elim
            · exact sent chunk body
      · exact ih late

theorem writeSSEEvent_unmarked {message requestID : String} {tr : Trace} {err : Option String}
    (h : Runs (writeSSEEvent "error" (errorPayload message requestID)) tr err) :
    .write (dataEvent "[DONE]") ∉ httpCalls tr := by
  obtain ⟨inner, braces⟩ : ∃ inner, (errorPayload message requestID).text.toList =
    '\x7b' :: inner ++ ['\x7d'] := Json.Value.text_obj _
  obtain ⟨own, named, rest, rfl, first, last⟩ := runs_bind.mp h
  have name : own = [⟨.http (.write "event: error\n"), named⟩] := runs_perform.mp first
  rw [httpCalls_append, name, List.mem_append]
  rintro (event | data)
  · have same := Call.write.inj (List.mem_singleton.mp event)
    revert same
    decide
  · cases named with
    | some err =>
        obtain ⟨rfl, -⟩ := runs_pure.mp last
        cases data
    | none =>
        rw [runs_perform.mp last] at data
        have letters := congrArg String.toList (Call.write.inj (List.mem_singleton.mp data))
        simp [braces, dataEvent] at letters

/-- An ending after an error does not write the closing mark. -/
theorem handleStreamError_unmarked {deps : ChatDeps} {r : Request} {a : Admitted} {s : StreamState}
    {failure : StreamError} {tail : Trace} {out : Ended}
    (h : Runs (handleStreamError deps r a s failure) tail out) :
    .write (dataEvent "[DONE]") ∉ httpCalls tail := by
  obtain ⟨inner, braces⟩ : ∃ inner, (errorPayload failure.err.error r.requestID).text.toList =
    '\x7b' :: inner ++ ['\x7d'] := Json.Value.text_obj _
  intro member
  cases flushed : failure.flushed with
  | false =>
      obtain ⟨-, w, own, rfl, error⟩ := handleStreamError_unflushed flushed h
      have calls : .write (dataEvent "[DONE]") ∈ httpCalls own := member
      rw [reportEngineError_calls error] at calls
      have same : dataEvent "[DONE]" = encodeLine (errorPayload failure.err.error r.requestID) := by
        simpa using calls
      have letters := congrArg String.toList same
      simp [encodeLine, braces, dataEvent] at letters
  | true =>
      obtain ⟨-, w, event, err, own, t, entry, -, rfl, sent, push⟩ := handleStreamError_flushed flushed h
      have calls : .write (dataEvent "[DONE]") ∈ httpCalls (event ++ (own ++ ⟨.now, t⟩ :: rows deps entry)) :=
        member
      have recorded : httpCalls (⟨.now, t⟩ :: rows deps entry) = [] := rows_httpCalls deps entry
      rw [httpCalls_append, httpCalls_append, recorded, List.append_nil, List.mem_append] at calls
      rcases calls with early | late
      · exact writeSSEEvent_unmarked sent early
      · cases runs_flushIf push _ late

/-- A run that no cache served and that writes the closing mark is a finished stream. -/
theorem finishedStream_of_mark {deps : ChatDeps} {r : Request} {a : Admitted} {tr : Trace} {out : Ended}
    (run : Runs (handleStreamingChatCompletion deps r a) tr out) (miss : cacheHits tr = [])
    (mark : .write (dataEvent "[DONE]") ∈ httpCalls tr) :
    ∃ result, FinishedStream deps r a tr result := by
  cases handleStreamingChatCompletion_cases run with
  | hit found => simp [cacheHits_append, checkCaches_hits found] at miss
  | @streamed look str tail etr suffix t lookup s outcome out found run handled ending =>
      cases outcome with
      | ok result => exact ⟨result, .mk found run handled ending⟩
      | error failure =>
          have looked := (checkCaches_within _ _ _).runs found
          rw [httpCalls_append, httpCalls_of_lookup looked] at mark
          change _ ∈ httpCalls (str ++ tail) at mark
          rw [httpCalls_append] at mark
          rcases List.mem_append.mp mark with early | late
          · obtain ⟨⟨op, w⟩, happened, seen⟩ := List.mem_filterMap.mp early
            cases op with
            | http call =>
                cases seen
                obtain ⟨d, same⟩ := handled_writes handled happened
                have chunk := isChunk_chunkText (streamContext r a suffix t) d none
                rw [← same] at chunk
                exact absurd chunk (by simp [isChunk])
            | _ => cases seen
          · exact absurd late (handleStreamError_unmarked ending)

/-- A stream that ends with the closing mark names the provider that served it, and has every
chunk from it, exactly if no call to another provider had emitted a delta. -/
theorem header_names_server_iff {deps : ChatDeps} {r : Request} {a : Admitted} {tr : Trace}
    {out : Ended} (budget : 1 ≤ deps.engine.cfg.maxAttemptsPerProvider)
    (run : Runs (handleStreamingChatCompletion deps r a) tr out) (miss : cacheHits tr = [])
    (mark : .write (dataEvent "[DONE]") ∈ httpCalls tr) :
    (∃ result, FinishedStream deps r a tr result) ∧
      ∀ result, FinishedStream deps r a tr result →
        (ToldServer tr result.provider ↔ ServedAlone r (streamCalls (engineEvents tr))) := by
  refine ⟨finishedStream_of_mark run miss mark, fun result finished => ?_⟩
  obtain ⟨ctx, etr, str, s, init, last, parts⟩ := finished.parts budget
  exact parts.toldServer_iff

/-- A streaming run whose primary replies in this way and whose backup greets. -/
def backedBy (primary : StreamReply) : Trace × Ended :=
  exec (smooth (calm (fun _ => ⟨.error (.other "unused"), 0⟩)
      (fun name => if name = "primary" then primary else ⟨[{ content := "Hello" }], none, 0⟩) []))
    (handleStreamingChatCompletion oneProvider (asked backedHello.req) backedHello) []

theorem runs_backedBy (primary : StreamReply) :
    Runs (handleStreamingChatCompletion oneProvider (asked backedHello.req) backedHello)
      (backedBy primary).1 (backedBy primary).2 := exec_runs _ _ _

/-- A primary that is down from the start. -/
def downAtOnce : StreamReply := ⟨[], some (.api { statusCode := 503, message := "down" }), 0⟩

theorem backup_named :
    1 ≤ oneProvider.engine.cfg.maxAttemptsPerProvider ∧ cacheHits (backedBy downAtOnce).1 = [] ∧
      .write (dataEvent "[DONE]") ∈ httpCalls (backedBy downAtOnce).1 ∧
      ∃ result, FinishedStream oneProvider (asked backedHello.req) backedHello
        (backedBy downAtOnce).1 result ∧ ToldServer (backedBy downAtOnce).1 result.provider := by
  have miss : cacheHits (backedBy downAtOnce).1 = [] := by decide +kernel
  have mark : .write (dataEvent "[DONE]") ∈ httpCalls (backedBy downAtOnce).1 := by decide +kernel
  have calls : streamCalls (engineEvents (backedBy downAtOnce).1) =
      [("primary", downAtOnce), ("backup", ⟨[{ content := "Hello" }], none, 0⟩)] := by decide +kernel
  obtain ⟨⟨result, finished⟩, told⟩ :=
    header_names_server_iff (by decide) (runs_backedBy downAtOnce) miss mark
  refine ⟨by decide, miss, mark, result, finished, (told result finished).mpr ?_⟩
  rw [calls]
  refine ⟨rfl, ⟨_, List.mem_cons_of_mem _ List.mem_cons_self, by simp⟩, ?_⟩
  simp [downAtOnce]

/-- A primary that is overloaded after a block without text. -/
def overloaded : StreamReply := ⟨[{}], some (.api { statusCode := 502, message := "overloaded" }), 0⟩

/-- The backup's answer under the name of the primary. -/
theorem primary_named_for_backup :
    ∃ result, FinishedStream oneProvider (asked backedHello.req) backedHello
        (backedBy overloaded).1 result ∧ result.provider = "backup" ∧
      providerHeader (responseOf (backedBy overloaded).1) = some "primary" ∧
      chunkProducers (backedBy overloaded).1 = [some "primary", some "backup"] ∧
      ¬ ToldServer (backedBy overloaded).1 result.provider := by
  have mark : .write (dataEvent "[DONE]") ∈ httpCalls (backedBy overloaded).1 := by decide +kernel
  have last : (streamCalls (engineEvents (backedBy overloaded).1)).getLast?.map Prod.fst =
      some "backup" := by decide +kernel
  have header : providerHeader (responseOf (backedBy overloaded).1) = some "primary" := by
    decide +kernel
  obtain ⟨result, finished⟩ :=
    finishedStream_of_mark (runs_backedBy overloaded) (by decide +kernel) mark
  have served : result.provider = "backup" :=
    Option.some.inj ((finished.last_call (by decide)).symm.trans last)
  refine ⟨result, finished, served, header, by decide +kernel, fun told => ?_⟩
  have same := told.header
  rw [header, served] at same
  revert same
  decide

end Gateway.Server
