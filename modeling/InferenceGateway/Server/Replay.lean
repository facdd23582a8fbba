import InferenceGateway.Json.Text
import InferenceGateway.Retry.Acceptance
import InferenceGateway.Server.Completeness

/-! A streamed answer and its replays from the caches. The callback notes content before it
is known to reach the client, but a write that fails ends the stream in an error, so what is
cached is what the client was sent, and a hit tells it again in either format. -/
namespace Gateway.Server
open Gateway.Providers Gateway.Retry EventStream Http
open Interaction hiding Program.perform
open Interaction.Program hiding pure perform

/-- What a client makes of an answer: its content and the last finish reason it was told. -/
structure Heard where
  content : String := ""
  finishReason : String := ""
  deriving DecidableEq

def firstChoice (v : Json.Value) : Option Json.Value := (v.member "choices").bind Json.Value.first

/-- The string at a place, empty if there is none. -/
def stringAt (place : Option Json.Value) : String := (place.bind Json.Value.string).getD ""

def chunkFinish (chunk : Json.Value) : String :=
  stringAt ((firstChoice chunk).bind (Json.Value.member "finish_reason"))

def Heard.next (h : Heard) (chunk : Json.Value) : Heard where
  content := h.content ++ stringAt (((firstChoice chunk).bind (Json.Value.member "delta")).bind
    (Json.Value.member "content"))
  finishReason := if chunkFinish chunk = "" then h.finishReason else chunkFinish chunk

def hearChunks (chunks : List Json.Value) : Heard := chunks.foldl Heard.next {}

def hearResponse (v : Json.Value) : Heard where
  content := stringAt (((firstChoice v).bind (Json.Value.member "message")).bind
    (Json.Value.member "content"))
  finishReason := stringAt ((firstChoice v).bind (Json.Value.member "finish_reason"))

/-- How a body is understood: as an event stream of chunks with its closing mark, or as one
JSON response. -/
def Hears : Bool → String → Heard → Prop
  | true, body, heard => ∃ chunks : List Json.Value,
      body = String.join ((chunks.map Json.Value.text ++ ["[DONE]"]).map dataEvent) ∧
        heard = hearChunks chunks
  | false, body, heard => ∃ v, body = encodeLine v ∧ heard = hearResponse v

/-- A body can be understood in one way at most. -/
theorem Hears.unique {streamed : Bool} {body : String} {heard other : Heard}
    (h : Hears streamed body heard) (h' : Hears streamed body other) : other = heard := by
  cases streamed with
  | true =>
      obtain ⟨chunks, rfl, rfl⟩ := h
      obtain ⟨chunks', same, rfl⟩ := h'
      have lines (chunks : List Json.Value) :
          ∀ p ∈ chunks.map Json.Value.text ++ ["[DONE]"], SingleLine p := by
        intro p member
        rcases List.mem_append.mp member with chunk | mark
        · obtain ⟨v, -, rfl⟩ := List.mem_map.mp chunk
          exact v.text_single_line
        · rw [List.mem_singleton.mp mark]
          show '\n' ∉ "[DONE]".toList
          decide
      have payloads := dataEvents_inj (lines chunks) (lines chunks') same
      have texts := List.append_cancel_right payloads
      rw [Json.Value.text_injective.list_map texts]
  | false =>
      obtain ⟨v, rfl, rfl⟩ := h
      obtain ⟨w, same, rfl⟩ := h'
      have letters := congrArg String.toList same
      simp only [encodeLine, String.toList_append, List.append_cancel_right_eq] at letters
      rw [Json.Value.text_injective (String.toList_injective letters)]

/-- The body is understood in this way and no other. -/
def HearsOnly (streamed : Bool) (body : String) (heard : Heard) : Prop :=
  ∀ other, Hears streamed body other ↔ other = heard

theorem Hears.only {streamed : Bool} {body : String} {heard : Heard} (h : Hears streamed body heard) :
    HearsOnly streamed body heard := by
  intro other
  constructor
  · exact h.unique
  · rintro rfl
    exact h

theorem Heard.next_chunk (h : Heard) (id : String) (created : Int) (model role content : String)
    (finish : Option String) :
    h.next (chunkJSON id created model role content finish) =
      ⟨h.content ++ content, if finish.getD "" = "" then h.finishReason else finish.getD ""⟩ := by
  have reason : chunkFinish (chunkJSON id created model role content finish) = finish.getD "" := by
    cases finish <;> rfl
  have said : stringAt (((firstChoice (chunkJSON id created model role content finish)).bind
      (Json.Value.member "delta")).bind (Json.Value.member "content")) = content := by
    by_cases named : role = "" <;> by_cases empty : content = "" <;>
      simp [chunkJSON, firstChoice, Json.Value.member, Json.Value.first, stringAt, Json.Value.string,
        List.lookup, named, empty]
  rw [Heard.next, reason, said]

theorem hearResponse_responseJSON {resp : CanonicalResponse} {choice : Choice}
    (only : resp.choices = [choice]) :
    hearResponse (responseJSON resp) = ⟨choice.message.content, choice.finishReason⟩ := by
  simp [hearResponse, responseJSON, firstChoice, Json.Value.member, Json.Value.first, stringAt,
    Json.Value.string, List.lookup, only]

theorem nilIfEmpty_getD (s : String) : (nilIfEmpty s).getD "" = s := by
  unfold nilIfEmpty
  split
  · rename_i empty
    exact empty.symm
  · rfl

/-- What the client hears of the chunks of a stream is what the callback noted. -/
theorem hearChunks_replay (counter : Tokenizer.Counter) (ctx : StreamContext)
    (calls : List (String × String × Delta)) :
    hearChunks (calls.map fun call => chunkJSON ctx.id ctx.created ctx.model "" call.2.2.content
        (nilIfEmpty call.2.2.finishReason)) =
      ⟨(replay counter ctx.canFlush calls).fullContent,
        (replay counter ctx.canFlush calls).finishReason⟩ := by
  induction calls using List.reverseRecOn with
  | nil => rfl
  | append_singleton calls call ih =>
      unfold hearChunks at ih ⊢
      rw [List.map_append, List.foldl_append, ih, replay_append_single, List.map_cons, List.map_nil,
        List.foldl_cons, List.foldl_nil, Heard.next_chunk, nilIfEmpty_getD]
      simp only [StreamState.receive, Heard.mk.injEq]
      constructor
      · split
        · rfl
        · rename_i empty
          rw [not_not.mp empty, String.append_empty]
      · split <;> simp_all

/-- Operations that prepare a response without writing any of its body. -/
def Op.isHead : Op → Prop
  | .http (.setHeader _ _) | .http (.writeHeader _) => True
  | _ => False

theorem writesSucceed_of_head {tr : Trace} (h : ∀ ev ∈ tr, ev.1.isHead) : WritesSucceed tr := by
  rintro ⟨op, reply⟩ member
  have head := h _ member
  cases op with
  | http call => cases call <;> first | rfl | exact head.elim
  | _ => rfl

theorem commitStream_head (deps : ChatDeps) (ctx : StreamContext) (providerName : String) :
    Within Op.isHead (commitStream deps ctx providerName) := by
  refine .bind (.perform trivial) fun _ => .bind (.perform trivial) fun _ =>
    .bind (.perform trivial) fun _ => .bind (.perform trivial) fun _ =>
    .bind (.perform trivial) fun _ => .bind ?_ fun _ => .perform trivial
  unfold setCacheTTLHeader
  split
  · exact .perform trivial
  · exact .pure ()

/-- A chunk is written, or the callback fails with the error of the write. -/
theorem sendChunk_outcome {ctx : StreamContext} {d : Delta} {tr : Trace} {failed : Option CallError}
    (h : Runs (sendChunk ctx d) tr failed) :
    failed = none ∧ WritesSucceed tr ∨ ∃ message, failed = some (.other message) := by
  obtain ⟨own, err, rest, rfl, first, last⟩ := runs_bind.mp h
  cases err with
  | some err => exact .inr ⟨err, (runs_pure.mp last).2⟩
  | none =>
      obtain ⟨u, rest, rfl, done⟩ := runs_perform_bind.mp last
      obtain ⟨rfl, rfl⟩ := runs_pure.mp done
      rw [writeSSEEvent_unnamed first]
      exact .inl ⟨rfl, by simp [WritesSucceed, writeFailed]⟩

theorem onDelta_outcome {deps : ChatDeps} {ctx : StreamContext} {s s' : StreamState}
    {providerName model : String} {d : Delta} {tr : Trace} {failed : Option CallError}
    (h : Runs (onDelta deps ctx s providerName model d) tr (failed, s')) :
    failed = none ∧ WritesSucceed tr ∨ ∃ message, failed = some (.other message) := by
  unfold onDelta at h
  simp only at h
  split at h
  · obtain ⟨own, reply, rest, rfl, chunk, last⟩ := runs_bind.mp h
    obtain ⟨rfl, same⟩ := runs_pure.mp last
    cases same
    rw [List.append_nil]
    exact sendChunk_outcome chunk
  · split at h
    · obtain ⟨-, same⟩ := runs_pure.mp h
      cases same
      exact .inr ⟨_, rfl⟩
    · obtain ⟨head, u, rest, rfl, commit, later⟩ := runs_bind.mp h
      obtain ⟨own, reply, tail, rfl, chunk, last⟩ := runs_bind.mp later
      obtain ⟨rfl, same⟩ := runs_pure.mp last
      cases same
      rw [List.append_nil]
      refine (sendChunk_outcome chunk).imp_left fun ⟨fine, writes⟩ => ⟨fine, ?_⟩
      have started := writesSucceed_of_head ((commitStream_head _ _ _).runs commit)
      exact List.forall_mem_append.mpr ⟨started, writes⟩

/-- The callback's errors have no status, and without one every write went through. -/
theorem handled_outcome {deps : ChatDeps} {ctx : StreamContext} {s s' : StreamState}
    {etr : Retry.Trace} {str : Trace} (h : Handled (relay deps ctx) s etr str s') :
    Engine.ClientErrors etr ∧ (Accepting etr → WritesSucceed str) := by
  induction h with
  | nil _ => exact ⟨by simp [Engine.ClientErrors], fun _ => by simp [WritesSucceed]⟩
  | @cons _ _ _ o reply _ own _ first _ ih =>
      have here : (∀ failure, refusal ⟨o, reply⟩ = some failure → failure.asAPIError = none) ∧
          (refusal ⟨o, reply⟩ = none → WritesSucceed own) := by
        by_cases other : ∀ name model d, o ≠ .onDelta name model d
        · obtain ⟨rfl, -⟩ := relay_passes other first
          refine ⟨?_, fun _ => by simp [WritesSucceed, writeFailed]⟩
          intro failure refused
          cases o with
          | onDelta name model d => exact absurd rfl (other name model d)
          | _ => cases refused
        · simp only [not_forall, not_not] at other
          obtain ⟨name, model, d, rfl⟩ := other
          obtain ⟨rfl, writes⟩ | ⟨message, rfl⟩ := onDelta_outcome first
          · exact ⟨by simp [refusal], fun _ => writes⟩
          · refine ⟨?_, fun accepted => by cases accepted⟩
            rintro failure ⟨⟩
            rfl
      constructor
      · exact List.forall_mem_cons.mpr ⟨here.1, ih.1⟩
      · intro accepting
        rw [Accepting, List.forall_mem_cons] at accepting
        exact List.forall_mem_append.mpr ⟨here.2 accepting.1, ih.2 accepting.2⟩

/-- The responses stored by storeInCaches are the one it was given. -/
theorem storeInCaches_stores {deps : ChatDeps} {lookup : CacheLookup} {resp : CanonicalResponse}
    {ttlOverride : Option Duration} {tr : Trace} {u : Unit}
    (h : Runs (storeInCaches deps lookup resp ttlOverride) tr u) :
    ∀ stored ∈ stores tr, stored = resp := by
  unfold storeInCaches at h
  split at h
  · rw [(runs_pure.mp h).1]
    exact fun stored member => absurd member List.not_mem_nil
  · obtain ⟨own, w, rest, rfl, exact_, semantic⟩ := runs_bind.mp h
    intro stored member
    rw [stores_append] at member
    rcases List.mem_append.mp member with early | late
    · unfold storeExact at exact_
      split at exact_
      · rw [runs_perform.mp exact_] at early
        exact List.mem_singleton.mp early
      · rw [(runs_pure.mp exact_).1] at early
        cases early
    · unfold storeSemantic at semantic
      split at semantic
      · rw [runs_perform.mp semantic] at late
        exact List.mem_singleton.mp late
      · rw [(runs_pure.mp semantic).1] at late
        cases late

theorem stores_of_http {tr : Trace} (h : ∀ ev ∈ tr, ev.1.isHttp) : stores tr = [] :=
  stores_of_relay fun ev member => (h ev member).relay

theorem rows_stores (deps : ChatDeps) (entry : Ledger.Entry) : stores (rows deps entry) = [] := by
  unfold rows
  split <;> rfl

theorem finishStream_stores {deps : ChatDeps} {r : Request} {a : Admitted} {ctx : StreamContext}
    {lookup : CacheLookup} {s : StreamState} {result : StreamResult} {tr : Trace} {out : Ended}
    (h : Runs (finishStream deps r a ctx lookup s result) tr out) :
    ∀ stored ∈ stores tr, stored = streamedResponse a ctx s (streamUsage a s result.usage) := by
  obtain ⟨-, mark, err, own, w, t, entry, store, -, rfl, sent, push, kept⟩ := finishStream_cases h
  have marked := stores_of_http ((write_within _).runs sent)
  have flushed := stores_of_http ((flushIf_within _).runs push)
  rw [stores_append, stores_append, marked, flushed, List.nil_append, List.nil_append]
  show ∀ stored ∈ stores (rows deps entry ++ store), _
  rw [stores_append, rows_stores, List.nil_append]
  exact storeInCaches_stores kept

/-- The only write of an ending is that of the closing mark. -/
theorem finishStream_writes {deps : ChatDeps} {r : Request} {a : Admitted} {ctx : StreamContext}
    {lookup : CacheLookup} {s : StreamState} {result : StreamResult} {tr : Trace} {out : Ended}
    (h : Runs (finishStream deps r a ctx lookup s result) tr out) {text : String} {err : Option String}
    (member : (⟨.http (.write text), err⟩ : Event Op Op.Reply) ∈ tr) : text = dataEvent "[DONE]" := by
  obtain ⟨flushes, calls, only⟩ := finishStream_calls h
  have called : .write text ∈ httpCalls tr := List.mem_filterMap.mpr ⟨_, member, rfl⟩
  rw [calls, List.mem_cons] at called
  rcases called with mark | flush
  · exact Call.write.inj mark
  · cases only _ flush

theorem cacheHits_of_replay {tr : Trace} (h : ∀ ev ∈ tr, ev.1.isReplay) : cacheHits tr = [] := by
  refine unobserved ?_ h
  intro op reply only
  cases op <;> first | rfl | exact only.elim

theorem finishCacheHit_httpCalls {deps : ChatDeps} {r : Request} {identity : Auth.Identity}
    {tier : CacheTier} {cached : CanonicalResponse} {start : Int64} {tr : Trace} {out : Ended}
    (h : Runs (finishCacheHit deps r identity tier cached start) tr out) : httpCalls tr = [] := by
  obtain ⟨-, t, entry, -, rfl⟩ := finishCacheHit_cases h
  exact rows_httpCalls deps entry

section Hits
variable {deps : ChatDeps} {r : Request} {a : Admitted} {tr : Trace} {out : Ended}
  {resp : CanonicalResponse}

/-- The answer of a hit is all that is sent, and no other response was found. -/
theorem hit_sent {look own tail : Trace} {w : Option String} {tier : CacheTier}
    {cached : CanonicalResponse} {lookup : CacheLookup}
    (found : Runs (checkCaches deps a.req a.identity) look (some (cached, tier), lookup))
    (replayed : ∀ ev ∈ own, ev.1.isReplay)
    (finish : Runs (finishCacheHit deps r a.identity tier cached a.start) tail out)
    (hit : resp ∈ cacheHits (look ++ ⟨.adjust a.scopes a.cost, w⟩ :: (own ++ tail))) :
    resp = cached ∧
      httpCalls (look ++ ⟨.adjust a.scopes a.cost, w⟩ :: (own ++ tail)) = httpCalls own := by
  have looked := (checkCaches_within _ _ _).runs found
  have settled := (finishCacheHit_within _ _ _ _ _ _).runs finish
  constructor
  · have quiet : cacheHits (⟨.adjust a.scopes a.cost, w⟩ :: (own ++ tail)) = [] := by
      show cacheHits (own ++ tail) = []
      rw [cacheHits_append, cacheHits_of_replay replayed,
        cacheHits_of_ending fun ev member => (settled ev member).ending]
      rfl
    rw [cacheHits_append, quiet, checkCaches_hits found] at hit
    simpa using hit
  · rw [httpCalls_append, httpCalls_of_lookup looked]
    show httpCalls (own ++ tail) = _
    rw [httpCalls_append, finishCacheHit_httpCalls finish, List.append_nil]

theorem streaming_hit (run : Runs (handleStreamingChatCompletion deps r a) tr out)
    (hit : resp ∈ cacheHits tr) :
    ∃ tier own, Runs (writeCachedStream r tier resp) own () ∧ httpCalls tr = httpCalls own := by
  cases handleStreamingChatCompletion_cases run with
  | hit found served finish =>
      obtain ⟨rfl, calls⟩ := hit_sent found ((writeCachedStream_within _ _ _).runs served) finish hit
      exact ⟨_, _, served, calls⟩
  | @streamed look str tail etr suffix t lookup s outcome out found _ handled ending =>
      have miss : cacheHits look = [] := checkCaches_hits found
      have quiet : cacheHits (str ++ tail) = [] := by
        rw [cacheHits_append, cacheHits_of_relay (relayedRun_of_handled handled).ops,
          cacheHits_of_ending ((endStream_within _ _ _ _ _ _ _).runs ending)]
        rfl
      have nothing : resp ∈ cacheHits look ++ cacheHits (str ++ tail) := by
        rw [cacheHits_append] at hit
        exact hit
      rw [miss, quiet] at nothing
      cases nothing

theorem completing_hit (run : Runs (completeChat deps r a) tr out) (hit : resp ∈ cacheHits tr) :
    ∃ tier own, Runs (writeCachedResponse tier resp) own () ∧ httpCalls tr = httpCalls own := by
  have missed {look tail : Trace} (etr : Retry.Trace) (miss : cacheHits look = [])
      (ending : cacheHits tail = []) : resp ∉ cacheHits (look ++ (etr.map Op.lift ++ tail)) := by
    rw [cacheHits_append, cacheHits_append, miss, ending, cacheHits_of_relay (relay_of_lift etr)]
    exact List.not_mem_nil
  cases completeChat_cases run with
  | hit found served finish =>
      have replayed := ((writeCachedResponse_within _ _).mono fun _ => Op.isHttp.replay).runs served
      obtain ⟨rfl, calls⟩ := hit_sent found replayed finish hit
      exact ⟨_, _, served, calls⟩
  | @failed look own etr lookup failure w found _ error =>
      have reported := (reportEngineError_within _ _ _).runs error
      have ending : cacheHits (⟨.adjust a.scopes a.cost, w⟩ :: own) = [] := by
        show cacheHits own = []
        exact cacheHits_of_ending fun ev member => (reported ev member).settling.ending
      exact absurd hit (missed etr (checkCaches_hits found) ending)
  | @finished look tail etr lookup result out found _ finish =>
      have ending := cacheHits_of_ending ((finishCompletion_within _ _ _ _ _).runs finish)
      exact absurd hit (missed etr (checkCaches_hits found) ending)

end Hits

theorem responseOf_body (tr : Trace) : (responseOf tr).body = written (httpCalls tr) := by
  rw [responseOf, Response.applyAll_body]
  exact String.empty_append

/-- A cached response with one choice is heard as that choice, in either format. -/
theorem writeCachedResponse_heard {tier : CacheTier} {resp : CanonicalResponse} {choice : Choice}
    {tr : Trace} {u : Unit} (only : resp.choices = [choice])
    (run : Runs (writeCachedResponse tier resp) tr u) :
    Hears false (written (httpCalls tr)) ⟨choice.message.content, choice.finishReason⟩ := by
  obtain ⟨-, _, rfl, typed⟩ := runs_perform_bind.mp run
  obtain ⟨-, _, rfl, status⟩ := runs_perform_bind.mp typed
  obtain ⟨-, _, rfl, body⟩ := runs_perform_bind.mp status
  obtain ⟨w, _, rfl, ended⟩ := runs_perform_bind.mp body
  obtain ⟨rfl, -⟩ := runs_pure.mp ended
  refine ⟨responseJSON resp, ?_, (hearResponse_responseJSON only).symm⟩
  simp [httpCalls, httpCall, written, Call.text]

theorem writeCachedStream_heard {r : Request} {tier : CacheTier} {resp : CanonicalResponse}
    {choice : Choice} {tr : Trace} {u : Unit} (only : resp.choices = [choice])
    (finished : choice.finishReason ≠ "") (run : Runs (writeCachedStream r tier resp) tr u) :
    Hears r.canFlush (written (httpCalls tr)) ⟨choice.message.content, choice.finishReason⟩ := by
  unfold writeCachedStream at run
  cases able : r.canFlush with
  | false =>
      simp only [able, Bool.not_false, if_true] at run
      exact writeCachedResponse_heard only run
  | true =>
      simp only [able, Bool.not_true, Bool.false_eq_true, if_false] at run
      obtain ⟨-, _, rfl, kind⟩ := runs_perform_bind.mp run
      obtain ⟨-, _, rfl, control⟩ := runs_perform_bind.mp kind
      obtain ⟨-, _, rfl, buffering⟩ := runs_perform_bind.mp control
      obtain ⟨-, _, rfl, cache⟩ := runs_perform_bind.mp buffering
      obtain ⟨-, _, rfl, status⟩ := runs_perform_bind.mp cache
      obtain ⟨suffix, _, rfl, named⟩ := runs_perform_bind.mp status
      obtain ⟨t, _, rfl, timed⟩ := runs_perform_bind.mp named
      obtain ⟨opening, err, _, rfl, opened, said⟩ := runs_bind.mp timed
      obtain ⟨-, _, rfl, flushed⟩ := runs_perform_bind.mp said
      obtain ⟨closing, err', _, rfl, closed, ended⟩ := runs_bind.mp flushed
      obtain ⟨-, _, rfl, marking⟩ := runs_perform_bind.mp ended
      obtain ⟨w, _, rfl, last⟩ := runs_perform_bind.mp marking
      have content : (resp.choices.head?.map (·.message.content)).getD "" = choice.message.content := by
        rw [only]
        rfl
      have finish : (resp.choices.head?.bind fun c => nilIfEmpty c.finishReason).getD "stop" =
          choice.finishReason := by
        simp [only, nilIfEmpty, finished]
      rw [content] at opened
      rw [finish] at closed
      rw [writeSSEEvent_unnamed opened, writeSSEEvent_unnamed closed, runs_perform.mp last]
      let chunk := chunkJSON ("chatcmpl-" ++ suffix) (t / 1000000000).toInt resp.model
      refine ⟨[chunk "assistant" choice.message.content none, chunk "" "" (some choice.finishReason)],
        ?_, ?_⟩
      · have mark : "data: [DONE]\n\n" = dataEvent "[DONE]" := by decide
        change written [.setHeader _ _, .setHeader _ _, .setHeader _ _, .setHeader _ _, .writeHeader _,
          .write _, .flush, .write _, .flush, .write "data: [DONE]\n\n", .flush] = _
        simp [written, Call.text, chunk, mark]
      · simp [hearChunks, chunk, Heard.next_chunk, finished]

/-- If ExecuteStream succeeded, the client got a chunk for every delta. -/
theorem relayed_chunks {deps : ChatDeps} {ctx : StreamContext} {tiers : List Tier}
    {req : CanonicalRequest} {etr : Retry.Trace} {str : Trace} {s : StreamState} {result : StreamResult}
    (gives : deps.engine.GivesUpOnZero)
    (run : Runs (deps.engine.executeStream tiers req) etr (some (.ok result)))
    (handled : Handled (relay deps ctx) {} etr str s) :
    WritesSucceed str ∧ written (httpCalls str) =
      String.join (((callbacks etr).map fun call => chunkText ctx call.2.2).map dataEvent) := by
  obtain ⟨client, through⟩ := handled_outcome handled
  have accepting : Accepting etr := by
    rcases Engine.executeStreamFrom_accepting gives client run with accepted | ⟨failure, same⟩
    · exact accepted
    · cases same
  have writes := through accepting
  obtain ⟨uniform, calls⟩ := handled_relay_calls handled writes
  refine ⟨writes, ?_⟩
  rw [calls]
  cases able : ctx.canFlush with
  | true => exact relayCalls_written able
  | false =>
      have none : callbacks etr = [] := by
        apply List.filterMap_eq_nil_iff.mpr
        rintro ⟨op, reply⟩ member
        cases op with
        | onDelta name model d =>
            have taken : reply = none := accepting _ member
            have refused := uniform name model d reply member
            rw [taken, able] at refused
            cases refused
        | _ => rfl
      rw [none, relayCalls, able]
      rfl

namespace Completed
variable {deps : ChatDeps} {r : Request} {a : Admitted} {tr : Trace} {resp : CanonicalResponse}

theorem stored (h : Completed deps r a tr resp) : ∀ stored ∈ stores tr, stored = resp := by
  cases h with
  | mk found streamed handled finish =>
      rw [stores_append, stores_of_lookup ((checkCaches_within _ _ _).runs found), List.nil_append]
      show ∀ stored ∈ stores (_ ++ _), _
      rw [stores_append, stores_of_relay (relayedRun_of_handled handled).ops, List.nil_append]
      exact finishStream_stores finish

section Live
variable (gives : deps.engine.GivesUpOnZero) (h : Completed deps r a tr resp)
include gives h

/-- Nothing but the closing mark can have failed to reach the client. -/
theorem reached {text err : String}
    (failed : (⟨.http (.write text), some err⟩ : Event Op Op.Reply) ∈ tr) :
    text = dataEvent "[DONE]" := by
  cases h with
  | mk found streamed handled finish =>
      obtain ⟨writes, -⟩ := relayed_chunks gives streamed handled
      simp only [List.mem_append, List.mem_cons, Sigma.mk.injEq, reduceCtorEq, false_and,
        false_or] at failed
      rcases failed with look | relayed | ending
      · exact ((checkCaches_within _ _ _).runs found _ look).elim
      · cases writes _ relayed
      · exact finishStream_writes finish ending

/-- The client heard the cached content, and the cached reason unless it heard none. -/
theorem heard : ∃ heard choice, Hears true (responseOf tr).body heard ∧ resp.choices = [choice] ∧
    choice.message.content = heard.content ∧
    choice.finishReason = if heard.finishReason = "" then "stop" else heard.finishReason := by
  cases h with
  | @mk look str tail etr suffix t lookup s result out found streamed handled finish =>
      obtain ⟨-, chunks⟩ := relayed_chunks gives streamed handled
      obtain ⟨flushes, calls, only⟩ := finishStream_calls finish
      have body : (responseOf (look ++ ⟨.newRequestID, suffix⟩ :: ⟨.now, t⟩ :: (str ++ tail))).body =
          written (httpCalls str) ++ dataEvent "[DONE]" := by
        rw [responseOf_body, httpCalls_append, httpCalls_of_lookup ((checkCaches_within _ _ _).runs found)]
        show written (httpCalls (str ++ tail)) = _
        rw [httpCalls_append, written_append, calls, written_cons, written_flushes only,
          String.append_empty]
        rfl
      have noted := hearChunks_replay deps.counter (streamContext r a suffix t) (callbacks etr)
      rw [← (relayedRun_of_handled handled).state] at noted
      refine ⟨⟨s.fullContent, s.finishReason⟩, _, ⟨_, ?_, noted.symm⟩, rfl, rfl, rfl⟩
      rw [body, chunks, List.map_append, String.join_append, List.map_map]
      simp [chunkText, Function.comp_def]

end Live

end Completed

/-- Every later hit on the response is heard in this way, in the format it is asked for. -/
def ReplaysAs (resp : CanonicalResponse) (heard : Heard) : Prop :=
  ∀ (deps : ChatDeps) (r : Request) (a : Admitted) (tr : Trace) (out : Ended), resp ∈ cacheHits tr →
    (Runs (completeChat deps r a) tr out → HearsOnly false (responseOf tr).body heard) ∧
    (Runs (handleStreamingChatCompletion deps r a) tr out →
      HearsOnly r.canFlush (responseOf tr).body heard)

theorem replaysAs_choice {resp : CanonicalResponse} {choice : Choice} (only : resp.choices = [choice])
    (finished : choice.finishReason ≠ "") :
    ReplaysAs resp ⟨choice.message.content, choice.finishReason⟩ := by
  intro deps r a tr out hit
  constructor
  · intro run
    obtain ⟨tier, own, served, calls⟩ := completing_hit run hit
    rw [responseOf_body, calls]
    exact (writeCachedResponse_heard only served).only
  · intro run
    obtain ⟨tier, own, served, calls⟩ := streaming_hit run hit
    rw [responseOf_body, calls]
    exact (writeCachedStream_heard only finished served).only

/-- Streamed, cached and replayed content agree. The chunks of a completed stream all
reached the client, who hears from them the content of the response given to the caches and
its finish reason, or none where that is the default; every later hit tells both again. -/
theorem streamed_cached_replayed_agree {deps : ChatDeps} {r : Request} {a : Admitted} {tr : Trace}
    {resp : CanonicalResponse} (gives : deps.engine.GivesUpOnZero) (h : Completed deps r a tr resp) :
    (∀ text err, (⟨.http (.write text), some err⟩ : Event Op Op.Reply) ∈ tr →
      text = dataEvent "[DONE]") ∧
    (∀ stored ∈ stores tr, stored = resp) ∧
    ∃ heard choice, HearsOnly true (responseOf tr).body heard ∧ resp.choices = [choice] ∧
      choice.message.content = heard.content ∧
      (choice.finishReason = if heard.finishReason = "" then "stop" else heard.finishReason) ∧
      ReplaysAs resp ⟨choice.message.content, choice.finishReason⟩ := by
  refine ⟨fun text err => h.reached gives, h.stored, ?_⟩
  obtain ⟨heard, choice, hears, only, content, finish⟩ := h.heard gives
  refine ⟨heard, choice, hears.only, only, content, finish, replaysAs_choice only ?_⟩
  rw [finish]
  split
  · decide
  · assumption

/-- A streaming request with a backup in the second tier. -/
def backedHello : Admitted :=
  afterReserve oneProvider ⟨{ hello with stream := true }, caller,
    [⟨[⟨"primary", "large", 1⟩]⟩, ⟨[⟨"backup", "small", 1⟩]⟩], none⟩ 0

/-- The primary sends a finish reason without content and fails; the backup answers. -/
def backedStream (name : String) : StreamReply :=
  if name = "primary" then
    ⟨[{ finishReason := "length" }], some (.api { statusCode := 503, message := "down" }), 0⟩
  else ⟨[{ content := "Hel" }, { content := "lo", finishReason := "stop" }], none, 0⟩

def backedRun : Trace × Ended :=
  exec (smooth (calm (fun _ => ⟨.error (.other "unused"), 0⟩) backedStream []))
    (handleStreamingChatCompletion oneProvider (asked backedHello.req) backedHello) []

/-- The client of that request and of any later hit hears the backup's answer. -/
theorem backup_answer_replayed :
    ∃ resp heard, Completed oneProvider (asked backedHello.req) backedHello backedRun.1 resp ∧
      HearsOnly true (responseOf backedRun.1).body heard ∧ heard.content = "Hello" ∧
      ReplaysAs resp ⟨"Hello", "stop"⟩ := by
  have kept : (stores backedRun.1).map (·.choices) = [[⟨0, ⟨"assistant", "Hello"⟩, "stop"⟩]] := by
    decide +kernel
  have gives : oneProvider.engine.GivesUpOnZero := by
    rintro name p ⟨⟩ err
    rfl
  have run : Runs (handleStreamingChatCompletion oneProvider (asked backedHello.req) backedHello)
      backedRun.1 backedRun.2 := exec_runs _ _ _
  obtain ⟨resp, completed⟩ := Completed.of_stored run (by intro none; simp [none] at kept)
  obtain ⟨-, stored, heard, choice, hears, only, content, -, replays⟩ :=
    streamed_cached_replayed_agree gives completed
  have same : choice = ⟨0, ⟨"assistant", "Hello"⟩, "stop"⟩ := by
    obtain ⟨resp', listed, choices⟩ := List.map_eq_singleton_iff.mp kept
    rw [← stored resp' (by rw [listed]; exact List.mem_singleton_self _), choices] at only
    exact (List.singleton_inj.mp only).symm
  subst same
  exact ⟨resp, heard, completed, hears, content.symm, replays⟩

end Gateway.Server
