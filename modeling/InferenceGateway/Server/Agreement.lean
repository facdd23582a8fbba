import InferenceGateway.Providers.Agreement
import InferenceGateway.Retry.Answers
import InferenceGateway.Server.Parity
import InferenceGateway.Server.Replay

/-! Streaming is a matter of delivery. If the upstream gives the same answer whole and as a
stream, a client hears the same from the gateway either way, and the caches are given the
same response. -/
namespace Gateway.Server
open Gateway.Providers Gateway.Retry EventStream Http
open Interaction hiding Program.perform
open Interaction.Program hiding pure perform

/-- The streaming handler's variables are the gist of the deltas it was called back with. -/
theorem replay_gist (counter : Tokenizer.Counter) (canFlush : Bool)
    (calls : List (String × String × Delta)) :
    (replay counter canFlush calls).fullContent = (gistOf (calls.map fun call => call.2.2)).content ∧
      (replay counter canFlush calls).finishReason =
        (gistOf (calls.map fun call => call.2.2)).finishReason := by
  induction calls using List.reverseRecOn with
  | nil => exact ⟨rfl, rfl⟩
  | append_singleton calls call ih =>
      rw [replay_append_single, List.map_append, List.map_cons, List.map_nil, gistOf_append_single]
      simp only [StreamState.receive, Gist.hear, ih]
      constructor
      · split
        · rfl
        · rename_i empty
          rw [not_not.mp empty, String.append_empty]
      · split <;> simp_all

theorem gistOf_usage (ds : List Delta) : (gistOf ds).usage = lastUsage ds := by
  induction ds using List.reverseRecOn with
  | nil => rfl
  | append_singleton ds d ih =>
      rw [gistOf_append_single, Gist.hear, ih]
      simp [lastUsage]

/-- A stream that succeeded leaves the gist of its one successful call, if the others sent
nothing. -/
theorem relayed_gist {deps : ChatDeps} {ctx : StreamContext} {tiers : List Tier}
    {req : CanonicalRequest} {etr : Retry.Trace} {str : Trace} {s : StreamState} {result : StreamResult}
    (gives : deps.engine.GivesUpOnZero) (budget : 1 ≤ deps.engine.cfg.maxAttemptsPerProvider)
    (run : Runs (deps.engine.executeStream tiers req) etr (some (.ok result)))
    (handled : Handled (relay deps ctx) {} etr str s)
    (silent : ∀ reply ∈ streamReplies etr, reply.err ≠ none → reply.deltas = []) :
    ∃ reply ∈ streamReplies etr, reply.err = none ∧
      s.fullContent = (gistOf reply.deltas).content ∧
      s.finishReason = (gistOf reply.deltas).finishReason ∧
      result.usage = (gistOf reply.deltas).usage := by
  obtain ⟨client, -⟩ := handled_outcome handled
  have accepting : Accepting etr := by
    rcases Engine.executeStreamFrom_accepting gives client run with accepted | ⟨failure, same⟩
    · exact accepted
    · cases same
  have uniform : Uniform true etr := by
    intro name model d reply member
    have taken : reply = none := accepting _ member
    rw [taken]
    rfl
  obtain ⟨calls, logged, concluded⟩ := Engine.executeStream_log budget run
  have called := logged.callbacks uniform
  cases concluded with
  | ok _ succeeded =>
      obtain ⟨init, last, rfl, failed, fine, -, -, usage⟩ := succeeded
      rw [logged.replies] at silent called ⊢
      have finished := (logged.uniform uniform (List.mem_append_right _ List.mem_cons_self)).2.mp fine
      have before : (init.map StreamCall.reply).flatMap (·.offered true) = [] := by
        refine List.flatMap_eq_nil_iff.mpr ?_
        intro reply member
        obtain ⟨call, listed, rfl⟩ := List.mem_map.mp member
        have inside := List.mem_append_left [last] listed
        refine silent _ (List.mem_map_of_mem inside) fun well => ?_
        exact failed call listed ((logged.uniform uniform inside).2.mpr ⟨well, .inl rfl⟩)
      rw [List.map_append, List.flatMap_append, before, List.nil_append] at called
      have deltas : (callbacks etr).map (fun call => call.2.2) = last.reply.deltas := by
        simpa [StreamReply.offered] using called
      obtain ⟨content, reason⟩ := replay_gist deps.counter ctx.canFlush (callbacks etr)
      rw [← (relayedRun_of_handled handled).state, deltas] at content reason
      have told := ((Engine.relayDeltas_spec (logged.valid last (by simp))).2.2.2 fine).2
      refine ⟨last.reply, by simp, finished.1, content, reason, ?_⟩
      rw [gistOf_usage, ← usage, told]
      rfl

/-- A run of the non-streaming branch that missed the caches and completed through Execute,
with the response it gave to storeInCaches. -/
inductive Executed (deps : ChatDeps) (r : Request) (a : Admitted) : Trace → CanonicalResponse → Prop
  | mk {look tail : Trace} {etr : Retry.Trace} {lookup : CacheLookup} {result : Result}
      {answer : CanonicalResponse} {out : Ended} :
      Runs (checkCaches deps a.req a.identity) look (none, lookup) →
      Runs (deps.engine.execute a.tiers a.req) etr (some (.ok result)) →
      result.response = some answer →
      Runs (finishCompletion deps r a lookup result) tail out →
      Executed deps r a (look ++ (etr.map Op.lift ++ tail)) { answer with model := a.req.model }

section Delivery
variable {deps : ChatDeps} {r r' : Request} {a a' : Admitted} {tr tr' : Trace}
  {resp resp' : CanonicalResponse}

/-- The client of a completed stream hears what the handler noted. -/
theorem streamed_hears {look str tail : Trace} {etr : Retry.Trace} {suffix : String} {t : Int64}
    {lookup : CacheLookup} {s : StreamState} {result : StreamResult} {out : Ended}
    (gives : deps.engine.GivesUpOnZero)
    (found : Runs (checkCaches deps a.req a.identity) look (none, lookup))
    (streamed : Runs (deps.engine.executeStream a.tiers a.req) etr (some (.ok result)))
    (handled : Handled (relay deps (streamContext r a suffix t)) {} etr str s)
    (finish : Runs (finishStream deps r a (streamContext r a suffix t) lookup s result) tail out) :
    Hears true (responseOf (look ++ ⟨.newRequestID, suffix⟩ :: ⟨.now, t⟩ :: (str ++ tail))).body
      ⟨s.fullContent, s.finishReason⟩ := by
  obtain ⟨-, chunks⟩ := relayed_chunks gives streamed handled
  obtain ⟨flushes, calls, only⟩ := finishStream_calls finish
  have body : (responseOf (look ++ ⟨.newRequestID, suffix⟩ :: ⟨.now, t⟩ :: (str ++ tail))).body =
      written (httpCalls str) ++ dataEvent "[DONE]" := by
    rw [responseOf_body, httpCalls_append, httpCalls_of_lookup ((checkCaches_within _ _ _).runs found)]
    show written (httpCalls (str ++ tail)) = _
    rw [httpCalls_append, written_append, calls, written_cons, written_flushes only,
      String.append_empty]
    rfl
  have noted := hearChunks_replay deps.counter (streamContext r a suffix t) (callbacks etr)
  rw [← (relayedRun_of_handled handled).state] at noted
  refine ⟨_, ?_, noted.symm⟩
  rw [body, chunks, List.map_append, String.join_append, List.map_map]
  simp [chunkText, Function.comp_def]

theorem writeCompletion_written {result : Result} {http : Trace} {u : Unit}
    (run : Runs (writeCompletion deps a result resp) http u) :
    written (httpCalls http) = encodeLine (responseJSON resp) := by
  obtain ⟨-, _, rfl, run⟩ := runs_perform_bind.mp run
  obtain ⟨-, _, rfl, run⟩ := runs_perform_bind.mp run
  obtain ⟨-, _, rfl, run⟩ := runs_perform_bind.mp run
  obtain ⟨hint, _, rest, rfl, hinted, run⟩ := runs_bind.mp run
  obtain ⟨-, _, rfl, run⟩ := runs_perform_bind.mp run
  obtain ⟨-, _, rfl, run⟩ := runs_perform_bind.mp run
  obtain ⟨w, _, rfl, ended⟩ := runs_perform_bind.mp run
  obtain ⟨rfl, -⟩ := runs_pure.mp ended
  have quiet : written (httpCalls hint) = "" := by
    unfold setCacheTTLHeader at hinted
    split at hinted
    · rw [runs_perform.mp hinted]
      rfl
    · rw [(runs_pure.mp hinted).1]
      rfl
  show written (_ :: _ :: _ :: httpCalls (hint ++ _)) = _
  simp only [httpCalls_append, written_cons, written_append, quiet]
  simp [httpCalls, httpCall, written, Call.text]

/-- The client of a completed request hears its one choice. -/
theorem Executed.hears {choice : Choice} (h : Executed deps r a tr resp)
    (only : resp.choices = [choice]) :
    Hears false (responseOf tr).body ⟨choice.message.content, choice.finishReason⟩ := by
  cases h with
  | @mk look tail etr lookup result answer out found run has finish =>
      obtain ⟨-, http, store, w, t, entry, -, rfl, wrote, stored⟩ := finishCompletion_cases has finish
      refine ⟨responseJSON _, ?_, (hearResponse_responseJSON only).symm⟩
      rw [responseOf_body, httpCalls_append, httpCalls_of_lookup ((checkCaches_within _ _ _).runs found),
        List.nil_append, httpCalls_append, httpCalls_lift, List.nil_append, httpCalls_append, httpCalls_append,
        httpCalls_of_store ((storeInCaches_within _ _ _ _).runs stored), List.nil_append]
      show written (httpCalls http ++ httpCalls (rows deps entry)) = _
      rw [rows_httpCalls, List.append_nil, writeCompletion_written wrote]

/-- Every run of the branch that stores something has completed. -/
theorem Executed.of_stored {out : Ended} (budget : 0 < deps.engine.cfg.maxAttemptsPerProvider.toInt.toNat)
    (run : Runs (completeChat deps r a) tr out) (kept : stores tr ≠ []) :
    ∃ resp, Executed deps r a tr resp := by
  cases completeChat_cases run with
  | @hit look own tail cached tier lookup w out found served finish =>
      have replayed := (writeCachedResponse_within _ _).runs served
      have settled := (finishCacheHit_within _ _ _ _ _ _).runs finish
      refine absurd ?_ kept
      rw [stores_append, stores_of_lookup ((checkCaches_within _ _ _).runs found)]
      show stores (own ++ tail) = []
      rw [stores_append, stores_of_http replayed, stores_of_settling settled]
      rfl
  | @failed look own etr lookup failure w found executed error =>
      have reported := (reportEngineError_within _ _ _).runs error
      have engine : stores (etr.map Op.lift) = [] := by
        apply List.filterMap_eq_nil_iff.mpr
        intro ev member
        obtain ⟨inner, -, rfl⟩ := List.mem_map.mp member
        rfl
      refine absurd ?_ kept
      rw [stores_append, stores_of_lookup ((checkCaches_within _ _ _).runs found), stores_append, engine]
      show stores own = []
      exact stores_of_settling fun ev member => (reported ev member).settling
  | @finished look tail etr lookup result out found executed finish =>
      obtain ⟨outcome, same, answers⟩ := Engine.execute_returns executed
      cases same
      obtain ⟨answer, has⟩ := answers budget result rfl
      exact ⟨_, .mk found executed has finish⟩

theorem Executed.answers {P : CanonicalResponse → Prop} (h : Executed deps r a tr resp)
    (completes : ∀ ev ∈ engineEvents tr, Engine.Completing P ev) :
    ∃ answer, P answer ∧ resp = { answer with model := a.req.model } := by
  cases h with
  | @mk look tail etr lookup result answer out found run has finish =>
      refine ⟨answer, Engine.execute_answers run ?_ has, rfl⟩
      intro ev member
      apply completes
      rw [engineEvents_append, engineEvents_append, engineEvents_lift]
      exact List.mem_append_right _ (List.mem_append_left _ member)

/-- The reason a stream ends with if its provider gives none. -/
def orStop (choice : Choice) : Choice :=
  { choice with finishReason := if choice.finishReason = "" then "stop" else choice.finishReason }

/-- The Stream calls of a run: those that failed sent nothing, and the one that did not read
this answer of the upstream. -/
def StreamsFrom (d : Dialect) (u : Upstream) (tr : Trace) : Prop :=
  ∀ reply ∈ streamReplies (engineEvents tr),
    (reply.err = none → Streams d u reply) ∧ (reply.err ≠ none → reply.deltas = [])

/-- The Complete call that answered a run read this answer of the upstream. -/
def CompletesFrom (e : Endpoint) (now : Int) (u : Upstream) (tr : Trace) : Prop :=
  ∀ ev ∈ engineEvents tr, Engine.Completing (fun answer => e.complete now (.ok u) = .ok answer) ev

/-- Streaming changes how an answer is delivered and nothing else. If the upstream of a
request answers whole and as a stream with the same completion, split and padded as it likes,
the clients hear the same content and reason, and the caches are given the same choices, up to
a reason the provider left out, and the same usage if the dialect streams it. -/
theorem streaming_only_delivers {e : Endpoint} {plain streamed : Upstream} {now : Int}
    (gives : deps.engine.GivesUpOnZero) (budget : 1 ≤ deps.engine.cfg.maxAttemptsPerProvider)
    (delivers : e.Delivers plain streamed) (completed : Completed deps r a tr resp)
    (streams : StreamsFrom e.dialect streamed tr) (executed : Executed deps r' a' tr' resp')
    (completes : CompletesFrom e now plain tr') :
    (∃ heard, HearsOnly true (responseOf tr).body heard ∧ HearsOnly false (responseOf tr').body heard) ∧
      resp.choices = resp'.choices.map orStop ∧
      (e.streamsUsage = true → resp.usage = resp'.usage) := by
  obtain ⟨answer, choice, ds, answered, only, index, role, same, sent⟩ := delivers.agree now
  obtain ⟨answer', answered', rfl⟩ := executed.answers completes
  rw [answered] at answered'
  cases answered'
  have plainly := executed.hears only
  cases completed with
  | @mk look str tail etr suffix t lookup s result out found run handled finish =>
      have replies : streamReplies (engineEvents (look ++ ⟨.newRequestID, suffix⟩ :: ⟨.now, t⟩ ::
          (str ++ tail))) = streamReplies etr := by
        have ending : Runs (endStream deps r a _ _ _ (.ok _)) _ _ := finish
        exact streamed_replies ((checkCaches_within _ _ _).runs found) (relayedRun_of_handled handled)
          ending
      unfold StreamsFrom at streams
      rw [replies] at streams
      obtain ⟨reply, listed, fine, content, reason, usage⟩ := relayed_gist gives budget run handled
        fun reply member => (streams reply member).2
      obtain ⟨sends, reading, deltas⟩ := (streams reply listed).1 fine
      have all : reply.deltas = ds := by
        obtain ⟨-, received⟩ | ⟨ce, cut, -⟩ := sent sends reply.err reading
        · rw [deltas, received]
        · rw [fine] at cut
          cases cut
      rw [all, same] at content reason usage
      have heard := streamed_hears gives found run handled finish
      rw [content, reason] at heard
      refine ⟨⟨_, heard.only, plainly.only⟩, ?_, ?_⟩
      · obtain ⟨position, ⟨speaker, text⟩, finishReason⟩ := choice
        cases index
        cases role
        rw [only]
        simp only [streamedResponse, content, reason, Endpoint.gist]
        rfl
      · intro told
        simp only [streamedResponse, streamUsage, usage, Endpoint.gist, told, if_true]
        rfl

end Delivery

/-- An answer in two fragments, with a thought before them. -/
def spoken : Anthropic.Answer where
  id := "msg_1"
  model := "large"
  blocks := [⟨"thinking", "thinking_delta", ["hm"], by decide⟩,
    ⟨"text", "text_delta", ["Hel", "lo"], by decide⟩]
  stopReason := "end_turn"
  inputTokens := 8
  outputTokens := 4

/-- A codec in which the length of a payload says which event of the answer it is. -/
def spelling : Anthropic.Codec where
  unmarshalEvent data :=
    if data = Scanner.utf8 "ping" then .ok { type := "ping" }
    else if data = Scanner.utf8 "stop" then .ok { type := "message_stop" }
    else ((spoken.events[data.length - 1]?).map .ok).getD (.error "invalid character")
  unmarshalError _ := .error "invalid character"
  text _ := ""

def spellingEndpoint : Endpoint := .anthropic spelling fun _ => .ok spoken.response

def spokenPlain : Upstream := { status := 200, body := [] }

def spokenStream : Upstream where
  status := 200
  body := Scanner.utf8
    "data: 1\n\ndata: 22\ndata: ping\ndata: 333\ndata: 4444\ndata: 55555\ndata: stop\n"

theorem spoken_delivered : spellingEndpoint.Delivers spokenPlain spokenStream := by
  refine ⟨by decide, rfl, spoken, rfl, ?_⟩
  refine ⟨spokenStream.scan.lines.dropLast, Scanner.utf8 "data: stop", [],
    spoken.events.take 2 ++ { type := "ping" } :: spoken.events.drop 2, { type := "message_stop" },
    ?_, ?_, ?_, ?_, rfl⟩
  all_goals decide +kernel

/-- The reply of the Stream call that reads this stream. -/
def spokenReply : StreamReply := ⟨Anthropic.deltasOf 0 spoken.events, none, 0⟩

theorem spokenReply_streams : Streams spellingEndpoint.dialect spokenStream spokenReply := by
  have run := exec_runs (fun _ _ => none) (spellingEndpoint.dialect.stream (.ok spokenStream)) []
  have ended : (exec (fun _ _ => none) (spellingEndpoint.dialect.stream (.ok spokenStream)) []).2 =
      none := by decide +kernel
  rw [ended] at run
  exact ⟨_, run, by decide +kernel⟩

/-- The run of a request that is not streamed, with this answer. -/
def plainRun : Trace × Ended :=
  exec (smooth (calm (fun _ => ⟨spellingEndpoint.complete 0 (.ok spokenPlain), 0⟩)
      (fun _ => ⟨[], none, 0⟩) []))
    (completeChat oneProvider (asked hello) admittedHello) []

theorem plainRun_completes : CompletesFrom spellingEndpoint 0 spokenPlain plainRun.1 := by
  rintro ⟨op, reply⟩ member name req reply' answer same result
  obtain ⟨⟨outer, given⟩, happened, shown⟩ := List.mem_filterMap.mp member
  have answered : given = _ := exec_answered (fun _ _ => rfl) _ _ _ happened
  cases outer with
  | engine inner =>
      cases shown
      cases same
      rw [answered] at result
      exact result
  | _ => cases shown

theorem hello_only_delivered :
    ∃ resp resp' heard, Completed oneProvider (asked admittedHello.req) admittedHello
        (servedRun spokenReply).1 resp ∧
      Executed oneProvider (asked hello) admittedHello plainRun.1 resp' ∧
      HearsOnly true (responseOf (servedRun spokenReply).1).body heard ∧
      HearsOnly false (responseOf plainRun.1).body heard ∧ resp.usage = resp'.usage := by
  have gives : oneProvider.engine.GivesUpOnZero := by
    rintro name p ⟨⟩ err
    rfl
  obtain ⟨-, stored, -⟩ := servedRun_finishes (rfl : spokenReply.err = none)
  obtain ⟨resp, completed⟩ := Completed.of_stored (exec_runs _ _ _) stored
  have kept : stores plainRun.1 ≠ [] := by
    have one : (stores plainRun.1).length = 1 := by decide +kernel
    intro none
    rw [none] at one
    cases one
  have run : Runs (completeChat oneProvider (asked hello) admittedHello) plainRun.1 plainRun.2 :=
    exec_runs _ _ _
  obtain ⟨resp', executed⟩ := Executed.of_stored (by decide) run kept
  have streams : StreamsFrom spellingEndpoint.dialect spokenStream (servedRun spokenReply).1 := by
    intro reply member
    rw [(servedRun_replies spokenReply).2 reply member]
    exact ⟨fun _ => spokenReply_streams, fun failed => absurd rfl failed⟩
  obtain ⟨⟨heard, streamed, plain⟩, -, usage⟩ := streaming_only_delivers gives (by decide)
    spoken_delivered completed streams executed plainRun_completes
  exact ⟨resp, resp', heard, completed, executed, streamed, plain, usage rfl⟩

end Gateway.Server
