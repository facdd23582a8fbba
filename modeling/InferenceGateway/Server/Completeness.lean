import InferenceGateway.Providers.Dialect
import InferenceGateway.Server.Framing

/-! Which upstream bodies end up in the caches. A stream is stored when its Stream call
returned nil, and that call does not ask for the end mark of its dialect. -/
namespace Gateway.Server
open Gateway.Providers Gateway.Retry EventStream Http
open Interaction hiding Program.perform
open Interaction.Program hiding pure perform

/-- A reply that Stream can give for this answer of its upstream. -/
def Streams (d : Dialect) (u : Upstream) (reply : StreamReply) : Prop :=
  ∃ tr, Runs (d.stream (.ok u)) tr reply.err ∧ reply.deltas = tr.filterMap received

/-- Every run of the handler whose last Stream call read this body, and that stored a
response and wrote the closing mark, read a complete one. -/
def CachesOnlyComplete (d : Dialect) (u : Upstream) : Prop :=
  ∀ (deps : ChatDeps) (r : Request) (a : Admitted) (tr : Trace) (out : Ended) (reply : StreamReply),
    1 ≤ deps.engine.cfg.maxAttemptsPerProvider →
    Runs (handleStreamingChatCompletion deps r a) tr out →
    (streamReplies (engineEvents tr)).getLast? = some reply → Streams d u reply →
    stores tr ≠ [] → .write (dataEvent "[DONE]") ∈ httpCalls tr → d.Complete u

theorem stores_append (tr₁ tr₂ : Trace) : stores (tr₁ ++ tr₂) = stores tr₁ ++ stores tr₂ :=
  List.filterMap_append

theorem relayDeltas_err {name model : String} {err : Option CallError} {ds : List Delta}
    {usage : Option Usage} {flushed : Bool} {tr : Retry.Trace} {out : Engine.Relayed}
    (h : Runs (Engine.relayDeltas name model err ds usage flushed) tr out) (fine : out.err = none) :
    err = none := by
  induction ds generalizing usage flushed tr with
  | nil =>
      obtain ⟨rfl, rfl⟩ := runs_pure.mp h
      exact fine
  | cons d ds ih =>
      obtain ⟨refused, tr', rfl, rest⟩ := runs_perform_bind.mp h
      cases refused with
      | some failure =>
          obtain ⟨rfl, rfl⟩ := runs_pure.mp rest
          cases fine
      | none => exact ih rest

/-- The last Stream call of a successful run returned nil. -/
theorem last_reply_of_ok {e : Engine} {req : CanonicalRequest} {tiers : List Tier}
    {tr : Retry.Trace} {result : StreamResult} (budget : 1 ≤ e.cfg.maxAttemptsPerProvider)
    (h : Runs (e.executeStream tiers req) tr (some (.ok result))) {reply : StreamReply}
    (last : (streamReplies tr).getLast? = some reply) : reply.err = none := by
  obtain ⟨calls, logged, concluded⟩ := Engine.executeStream_log budget h
  cases concluded with
  | ok _ succeeded =>
      obtain ⟨init, call, rfl, -, fine, -⟩ := succeeded
      rw [logged.replies, List.map_append, List.map_cons, List.map_nil,
        List.getLast?_append_cons] at last
      cases last
      exact relayDeltas_err (logged.valid call (by simp)) fine

theorem stores_of_settling {tr : Trace} (h : ∀ ev ∈ tr, ev.1.isSettling) : stores tr = [] := by
  refine unobserved ?_ h
  intro op reply only
  cases op <;> first | rfl | exact only.elim

theorem stores_of_lookup {tr : Trace} (h : ∀ ev ∈ tr, ev.1.isLookup) : stores tr = [] := by
  refine unobserved ?_ h
  intro op reply only
  cases op <;> first | rfl | exact only.elim

theorem stores_of_relay {tr : Trace} (h : ∀ ev ∈ tr, ev.1.isRelay) : stores tr = [] := by
  refine unobserved ?_ h
  intro op reply only
  cases op <;> first | rfl | exact only.elim

theorem stores_of_replay {tr : Trace} (h : ∀ ev ∈ tr, ev.1.isReplay) : stores tr = [] := by
  refine unobserved ?_ h
  intro op reply only
  cases op <;> first | rfl | exact only.elim

/-- A run of the streaming handler that missed the caches and completed through
ExecuteStream, with the response it gave to storeInCaches. -/
inductive Completed (deps : ChatDeps) (r : Request) (a : Admitted) : Trace → CanonicalResponse → Prop
  | mk {look str tail : Trace} {etr : Retry.Trace} {suffix : String} {t : Int64}
      {lookup : CacheLookup} {s : StreamState} {result : StreamResult} {out : Ended} :
      Runs (checkCaches deps a.req a.identity) look (none, lookup) →
      Runs (deps.engine.executeStream a.tiers a.req) etr (some (.ok result)) →
      Handled (relay deps (streamContext r a suffix t)) {} etr str s →
      Runs (finishStream deps r a (streamContext r a suffix t) lookup s result) tail out →
      Completed deps r a (look ++ ⟨.newRequestID, suffix⟩ :: ⟨.now, t⟩ :: (str ++ tail))
        (streamedResponse a (streamContext r a suffix t) s (streamUsage a s result.usage))

/-- Every run of the handler that stores something has completed. -/
theorem Completed.of_stored {deps : ChatDeps} {r : Request} {a : Admitted} {tr : Trace} {out : Ended}
    (run : Runs (handleStreamingChatCompletion deps r a) tr out)
    (kept : stores tr ≠ []) : ∃ resp, Completed deps r a tr resp := by
  cases handleStreamingChatCompletion_cases run with
  | @hit look own tail cached tier lookup w out found served finish =>
      have replayed := (writeCachedStream_within _ _ _).runs served
      have settled := (finishCacheHit_within _ _ _ _ _ _).runs finish
      refine absurd ?_ kept
      rw [stores_append, stores_of_lookup ((checkCaches_within _ _ _).runs found)]
      show stores (own ++ tail) = []
      rw [stores_append, stores_of_replay replayed, stores_of_settling settled]
      rfl
  | @streamed look str tail etr suffix t lookup s outcome out found streamed handled ending =>
      cases outcome with
      | ok result => exact ⟨_, .mk found streamed handled ending⟩
      | error failure =>
          refine absurd ?_ kept
          rw [stores_append, stores_of_lookup ((checkCaches_within _ _ _).runs found)]
          show stores (str ++ tail) = []
          rw [stores_append, stores_of_relay (relayedRun_of_handled handled).ops,
            stores_of_settling ((handleStreamError_within _ _ _ _ _).runs ending)]
          rfl

/-- A run that stores something ended its last Stream call without an error. -/
theorem last_reply_of_stored {deps : ChatDeps} {r : Request} {a : Admitted} {tr : Trace}
    {out : Ended} {reply : StreamReply} (budget : 1 ≤ deps.engine.cfg.maxAttemptsPerProvider)
    (h : Runs (handleStreamingChatCompletion deps r a) tr out)
    (last : (streamReplies (engineEvents tr)).getLast? = some reply) (stored : stores tr ≠ []) :
    reply.err = none := by
  obtain ⟨resp, completed⟩ := Completed.of_stored h stored
  cases completed with
  | mk found streamed handled finish =>
      have looked := (checkCaches_within _ _ _).runs found
      have ending : Runs (endStream deps r a _ _ _ (.ok _)) _ _ := finish
      rw [streamed_replies looked (relayedRun_of_handled handled) ending] at last
      exact last_reply_of_ok budget streamed last

/-- A stream that completed writes the closing mark and ends with the cache stores. -/
theorem finishStream_writes_and_stores {deps : ChatDeps} {r : Request} {a : Admitted}
    {ctx : StreamContext} {lookup : CacheLookup} {s : StreamState} {result : StreamResult} {tr : Trace}
    {out : Ended} (h : Runs (finishStream deps r a ctx lookup s result) tr out) :
    .write (dataEvent "[DONE]") ∈ httpCalls tr ∧ ∃ store, store <:+ tr ∧
      Runs (storeInCaches deps lookup
        (streamedResponse a ctx s (streamUsage a s result.usage)) a.ttlOverride) store () := by
  obtain ⟨-, mark, err, own, w, t, entry, store, -, rfl, sent, -, stored⟩ := finishStream_cases h
  rw [writeSSEDone, write, runs_perform] at sent
  subst sent
  refine ⟨List.mem_cons_self, store, ?_, stored⟩
  refine List.IsSuffix.trans ?_ (List.suffix_append _ _)
  refine List.IsSuffix.trans ?_ (List.suffix_append _ _)
  exact (List.suffix_append (rows deps entry) store).trans
    ((List.suffix_cons _ _).trans (List.suffix_cons _ _))

/-- A streaming request admitted to the one-provider deployment. -/
def admittedHello : Admitted :=
  afterReserve oneProvider ⟨{ hello with stream := true }, caller, [⟨[⟨"primary", "large", 1⟩]⟩], none⟩ 0

/-- The run in which the provider's Stream call gives this reply and all else goes well. -/
def servedRun (reply : StreamReply) : Trace × Ended :=
  exec (smooth (calm (fun _ => ⟨.error (.other "unused"), 0⟩) (fun _ => reply) []))
    (handleStreamingChatCompletion oneProvider (asked admittedHello.req) admittedHello) []

theorem servedRun_answered (reply : StreamReply) : ∀ ev ∈ (servedRun reply).1,
    ev.2 = smooth (calm (fun _ => ⟨.error (.other "unused"), 0⟩) (fun _ => reply) []) [] ev.1 :=
  exec_answered (fun _ _ => rfl) _ _

theorem servedRun_writes (reply : StreamReply) : WritesSucceed (servedRun reply).1 := by
  rintro ⟨op, answer⟩ member
  have answered := servedRun_answered reply _ member
  cases op with
  | http call =>
      cases call with
      | write text =>
          cases answered
          rfl
      | _ => rfl
  | _ => rfl

theorem servedRun_misses (reply : StreamReply) : cacheHits (servedRun reply).1 = [] := by
  apply List.filterMap_eq_nil_iff.mpr
  rintro ⟨op, answer⟩ member
  have answered := servedRun_answered reply _ member
  cases op with
  | cacheGet key =>
      cases answered
      rfl
  | semanticGet q =>
      cases answered
      rfl
  | _ => rfl

/-- The only reply the engine gets from its Stream calls, of which it makes one. -/
theorem servedRun_replies (reply : StreamReply) :
    (∃ rest, streamReplies (engineEvents (servedRun reply).1) = reply :: rest) ∧
      ∀ other ∈ streamReplies (engineEvents (servedRun reply).1), other = reply := by
  refine ⟨⟨_, rfl⟩, ?_⟩
  intro other member
  obtain ⟨⟨inner, answer⟩, seen, same⟩ := List.mem_filterMap.mp member
  obtain ⟨⟨op, answer'⟩, happened, shown⟩ := List.mem_filterMap.mp seen
  have answered := servedRun_answered reply _ happened
  cases op with
  | engine _ =>
      cases shown
      cases inner with
      | stream name req =>
          cases same
          exact answered
      | _ => cases same
  | _ => cases shown

theorem oneProvider_lookup {look : Trace} {lookup : CacheLookup}
    (h : Runs (checkCaches oneProvider admittedHello.req admittedHello.identity) look (none, lookup)) :
    lookup.exactCacheKey = "cache:exact:acme:chat" := by
  obtain ⟨answer, rest, rfl, after⟩ := runs_perform_bind.mp h
  rcases answer with err | - | cached
  · cases (runs_pure.mp after).2
    rfl
  · cases (runs_pure.mp after).2
    rfl
  · cases (runs_pure.mp after).2

theorem oneProvider_stores {lookup : CacheLookup} {resp : CanonicalResponse} {store : Trace}
    (key : lookup.exactCacheKey = "cache:exact:acme:chat")
    (h : Runs (storeInCaches oneProvider lookup resp none) store ()) : resp ∈ stores store := by
  obtain ⟨own, w, rest, rfl, exact, -⟩ := runs_bind.mp h
  have set : Runs (perform (.cacheSet lookup.exactCacheKey resp none)) own w := by
    simpa [storeExact, key, oneProvider] using exact
  rw [runs_perform.mp set, stores_append]
  exact List.mem_append_left _ List.mem_cons_self

theorem servedRun_finishes {reply : StreamReply} (fine : reply.err = none) :
    (streamReplies (engineEvents (servedRun reply).1)).getLast? = some reply ∧
      stores (servedRun reply).1 ≠ [] ∧
      .write (dataEvent "[DONE]") ∈ httpCalls (servedRun reply).1 := by
  have run : Runs (handleStreamingChatCompletion oneProvider (asked admittedHello.req) admittedHello)
      (servedRun reply).1 (servedRun reply).2 := exec_runs _ _ _
  obtain ⟨⟨rest, first⟩, only⟩ := servedRun_replies reply
  have writes := servedRun_writes reply
  have misses := servedRun_misses reply
  refine ⟨?_, ?_⟩
  · cases last : (streamReplies (engineEvents (servedRun reply).1)).getLast? with
    | none => simp [first] at last
    | some other => rw [only other (List.mem_of_getLast? last)]
  · generalize (servedRun reply).1 = tr at *
    generalize (servedRun reply).2 = out at run
    cases handleStreamingChatCompletion_cases run with
    | hit found => simp [cacheHits_append, checkCaches_hits found] at misses
    | @streamed look str tail etr suffix t lookup s outcome out found engine handled ending =>
        have looked := (checkCaches_within _ _ _).runs found
        have relayed := relayedRun_of_handled handled
        obtain ⟨uniform, -⟩ := handled_relay_calls handled writes.right.tail.tail.left
        rw [streamed_replies looked relayed ending] at first
        obtain ⟨result, rfl⟩ := (executeStream_uniform (by decide) uniform engine).1.mpr
          ⟨reply, by simp [first], fine, .inl rfl⟩
        obtain ⟨marked, store, whole, stored⟩ := finishStream_writes_and_stores ending
        obtain ⟨early, rfl⟩ := whole
        have kept := oneProvider_stores (oneProvider_lookup found) stored
        constructor
        · apply List.ne_nil_of_mem
          rw [show look ++ ⟨.newRequestID, suffix⟩ :: ⟨.now, t⟩ :: (str ++ (early ++ store)) =
            (look ++ ⟨.newRequestID, suffix⟩ :: ⟨.now, t⟩ :: (str ++ early)) ++ store by simp,
            stores_append]
          exact List.mem_append_right _ kept
        · rw [httpCalls_append]
          apply List.mem_append_right
          show _ ∈ httpCalls (str ++ (early ++ store))
          rw [httpCalls_append]
          exact List.mem_append_right _ marked

/-- Only complete bodies are cached exactly if the body is complete, or holds a line that
makes Stream fail before its end mark. -/
theorem caches_only_complete_iff (d : Dialect) {u : Upstream} (accepted : 200 ≤ u.status ∧ u.status < 300)
    (clean : u.failure = none) : CachesOnlyComplete d u ↔ d.Complete u ∨ d.Breaks u := by
  have succeeds := d.stream_succeeds_iff (by omega : u.status < 400) clean
  constructor
  · intro only
    by_cases breaks : d.Breaks u
    · exact .inr breaks
    · obtain ⟨tr, run⟩ := succeeds.mpr breaks
      let reply : StreamReply := ⟨tr.filterMap received, none, 0⟩
      obtain ⟨last, stored, marked⟩ := servedRun_finishes (rfl : reply.err = none)
      exact .inl (only oneProvider _ admittedHello _ _ reply (by decide) (exec_runs _ _ _) last
        ⟨tr, run, rfl⟩ stored marked)
  · rintro (complete | breaks) deps r a tr out reply budget run last ⟨sent, stream, -⟩ stored -
    · exact complete
    · rw [last_reply_of_stored budget run last stored] at stream
      exact absurd breaks (succeeds.mp ⟨sent, stream⟩)

/-- A codec that knows one chunk, with the content "Hel". -/
def oneChunk : OpenAI.Codec where
  unmarshalChunk data :=
    if data = Scanner.utf8 "\x7b\"choices\":[\x7b\"delta\":\x7b\"content\":\"Hel\"\x7d\x7d]\x7d" then
      .ok ⟨[⟨"Hel", ""⟩]⟩
    else .error "invalid character"
  unmarshalError _ := .error "invalid character"
  text _ := ""
  carriesError _ := false

def chunkLine : String :=
  "data: \x7b\"choices\":[\x7b\"delta\":\x7b\"content\":\"Hel\"\x7d\x7d]\x7d\n\n"

/-- A body with its end mark. -/
theorem marked_body_caches_complete : CachesOnlyComplete (.openai oneChunk)
    { status := 200, body := Scanner.utf8 (chunkLine ++ "data: [DONE]\n\n") } := by
  apply (caches_only_complete_iff _ (by decide) rfl).mpr
  refine .inl ⟨_, _, _, (rfl : _ = [_, _] ++ _ :: [_]), by decide +kernel, by decide +kernel⟩

/-- A body cut off after its first chunk: "Hel" is stored as the whole answer. -/
theorem truncated_body_cached :
    let u : Upstream := { status := 200, body := Scanner.utf8 chunkLine }
    let reply : StreamReply := ⟨[{ content := "Hel" }], none, 0⟩
    Streams (.openai oneChunk) u reply ∧
      (stores (servedRun reply).1).map (fun resp => resp.choices.map fun c => c.message.content) =
        [["Hel"]] ∧
      .write (dataEvent "[DONE]") ∈ httpCalls (servedRun reply).1 ∧
      ¬ (Dialect.openai oneChunk).Complete u := by
  intro u reply
  refine ⟨⟨[⟨.send { content := "Hel" }, none⟩], ?_, rfl⟩, by decide +kernel,
    (servedRun_finishes rfl).2.2, ?_⟩
  · exact (exec_runs (fun _ o => by cases o; exact none) ((Dialect.openai oneChunk).stream (.ok u)) [] :)
  · rintro ⟨before, mark, after, lines, ends, -⟩
    have unmarked : ∀ line ∈ u.lines, (Dialect.openai oneChunk).endsCompletion line = false := by
      decide +kernel
    have absent := unmarked mark (by rw [lines]; simp)
    rw [ends] at absent
    cases absent

end Gateway.Server
