import InferenceGateway.Cache.History
import InferenceGateway.Server.Runs

/-! Which requests a Tier-2 answer is reused for. Two requests meet one deployment, whose
embedding model is a function of the text, and one store. -/
namespace Gateway.Server
open Gateway.Providers Gateway.Retry
open Gateway.Semantic (Query Stored History Node)
open Gateway.Embedding (cosineSimilarity)
open Binary64 (Value)
open Interaction hiding Program.perform
open Interaction.Program hiding pure perform

/-- A deployed embedding model. -/
abbrev Embedder := String → Except String Embedding.Vector

def EmbedsBy (embed : Embedder) (tr : Trace) : Prop :=
  ∀ text reply, (⟨.embed text, reply⟩ : Event Op Op.Reply) ∈ tr → reply = embed text

/-- Some run of the handler for this request stores the response under the query. -/
def StoredFor (deps : ChatDeps) (embed : Embedder) (r : Request) (q : Query)
    (resp : CanonicalResponse) : Prop :=
  ∃ tr out ttlOverride, Runs (handleChatCompletions deps r) tr out ∧ EmbedsBy embed tr ∧
    (⟨.semanticSet q resp ttlOverride, ()⟩ : Event Op Op.Reply) ∈ tr

/-- Some run of the handler for this request looks the query up and is given the response. -/
def AnsweredBy (deps : ChatDeps) (embed : Embedder) (r : Request) (q : Query)
    (resp : CanonicalResponse) : Prop :=
  ∃ tr out, Runs (handleChatCompletions deps r) tr out ∧ EmbedsBy embed tr ∧
    (⟨.semanticGet q, some resp⟩ : Event Op Op.Reply) ∈ tr

/-- Agreement on what enters the exact-cache key beside the model, the tools, the response
format and the user's turns. -/
structure SameParameters (a b : CanonicalRequest) : Prop where
  temperature : a.temperature = b.temperature
  topP : a.topP = b.topP
  maxTokens : a.maxTokens = b.maxTokens
  stop : a.stop = b.stop
  seed : a.seed = b.seed
  others : a.messages.filter (·.role ≠ "user") = b.messages.filter (·.role ≠ "user")

def Request.Alike (r₁ r₂ : Request) : Prop :=
  ∀ req₁ req₂, r₁.body = .ok req₁ → r₂.body = .ok req₂ → SameParameters req₁ req₂

/-- Over some run of the store, the second request is answered from an entry stored for the
first. -/
def Reused (deps : ChatDeps) (embed : Embedder) (threshold : Value) (r₁ r₂ : Request) : Prop :=
  ∃ (h : History) (set : Stored) (q : Query) (resp : CanonicalResponse) (now : Int)
    (proposed : List Node) (sim : Value), h.Run ∧ h.store.threshold = threshold ∧ set ∈ h.sets ∧
    StoredFor deps embed r₁ set.query set.response ∧
    (h.store.get q now proposed).1 = .ok (some (resp, sim)) ∧ set.Serves h q now resp sim ∧
    AnsweredBy deps embed r₂ q resp

/-- What a Tier-2 lookup compares of two requests lets the second have the first's entry. -/
structure Comparable (deps : ChatDeps) (embed : Embedder) (threshold : Value)
    (p₁ p₂ : Prepared) : Prop where
  first : consultsSemantic deps p₁.req = true
  second : consultsSemantic deps p₂.req = true
  model : p₁.req.model = p₂.req.model
  tools : (deps.lib.canonicalizeJSON p₁.req.tools).getD "" =
    (deps.lib.canonicalizeJSON p₂.req.tools).getD ""
  responseFormat : (deps.lib.canonicalizeJSON p₁.req.responseFormat).getD "" =
    (deps.lib.canonicalizeJSON p₂.req.responseFormat).getD ""
  similar : ∃ v₁ v₂ sim, embed (concatUserTurns p₁.req.messages) = .ok v₁ ∧
    embed (concatUserTurns p₂.req.messages) = .ok v₂ ∧ cosineSimilarity v₂ v₁ = .ok sim ∧
    sim.lt threshold = false

/-- The engine can answer the request, in the format it asks for. -/
def Completes (deps : ChatDeps) (r : Request) (p : Prepared) : Prop :=
  (p.req.stream = true ∧ ∃ start suffix t etr str s result,
      Runs (deps.engine.executeStream p.tiers p.req) etr (some (.ok result)) ∧
      Handled (relay deps (streamContext r (afterReserve deps p start) suffix t)) {} etr str s) ∨
    (p.req.stream = false ∧ ∃ etr result answer,
      Runs (deps.engine.execute p.tiers p.req) etr (some (.ok result)) ∧
      result.response = some answer)

/-- The first request's answer is stored and passes for the second's. -/
def Reusable (deps : ChatDeps) (embed : Embedder) (threshold : Value) (r₁ r₂ : Request) : Prop :=
  ∃ p₁ p₂, prepare deps r₁ = .ok p₁ ∧ prepare deps r₂ = .ok p₂ ∧
    Comparable deps embed threshold p₁ p₂ ∧ p₁.ttlOverride.any (· ≤ 0) = false ∧
    Completes deps r₁ p₁

theorem prepare_ok {deps : ChatDeps} {r : Request} {p : Prepared} (h : prepare deps r = .ok p) :
    r.body = .ok p.req ∧ r.identity = some p.identity := by
  unfold prepare at h
  cases body : r.body with
  | error err => simp [body] at h
  | ok req =>
      simp only [body] at h
      split_ifs at h
      cases resolved : resolveCacheTTLOverride deps.lib req.cacheTTL deps.cacheMaxClientTTL with
      | error err => simp [resolved] at h
      | ok ttlOverride =>
          cases routed : deps.resolve req.model with
          | error err => simp [resolved, routed] at h
          | ok tiers =>
              simp only [resolved, routed] at h
              split_ifs at h
              cases known : r.identity with
              | none => simp [known] at h
              | some identity =>
                  simp only [known, Except.ok.injEq] at h
                  subst h
                  exact ⟨rfl, rfl⟩

/-- A lookup that has a query to store under embedded the request's text. -/
theorem SemanticRun.query {deps : ChatDeps} {req : CanonicalRequest} {identity : Auth.Identity}
    {key : String} {tr : Trace} {found : Lookup} (h : SemanticRun deps req identity key tr found)
    (kept : found.2.semanticEligible = true) :
    consultsSemantic deps req = true ∧ ∃ vector,
      (⟨.embed (concatUserTurns req.messages), .ok vector⟩ : Event Op Op.Reply) ∈ tr ∧
      found.2.semanticQuery = queryOf deps req identity vector := by
  cases h with
  | skipped consulted => cases kept
  | failed consulted => cases kept
  | @asked vector hit consulted => exact ⟨consulted, vector, List.mem_cons_self, rfl⟩

theorem SemanticRun.get {deps : ChatDeps} {req : CanonicalRequest} {identity : Auth.Identity}
    {key : String} {tr : Trace} {found : Lookup} {q : Query} {reply : Option CanonicalResponse}
    (h : SemanticRun deps req identity key tr found)
    (asked : (⟨.semanticGet q, reply⟩ : Event Op Op.Reply) ∈ tr) :
    consultsSemantic deps req = true ∧ ∃ vector,
      (⟨.embed (concatUserTurns req.messages), .ok vector⟩ : Event Op Op.Reply) ∈ tr ∧
      q = queryOf deps req identity vector := by
  cases h with
  | skipped consulted => cases asked
  | failed consulted => simp at asked
  | @asked vector hit consulted =>
      simp only [List.mem_cons, Sigma.mk.injEq, reduceCtorEq, false_and, false_or,
        Op.semanticGet.injEq, List.not_mem_nil, or_false] at asked
      exact ⟨consulted, vector, List.mem_cons_self, asked.1⟩

theorem LookupRun.query {deps : ChatDeps} {req : CanonicalRequest} {identity : Auth.Identity}
    {tr : Trace} {found : Lookup} (h : LookupRun deps req identity tr found)
    (kept : found.2.semanticEligible = true) :
    consultsSemantic deps req = true ∧ ∃ vector,
      (⟨.embed (concatUserTurns req.messages), .ok vector⟩ : Event Op Op.Reply) ∈ tr ∧
      found.2.semanticQuery = queryOf deps req identity vector := by
  cases h with
  | exact => cases kept
  | direct semantic => exact semantic.query kept
  | missed miss semantic =>
      obtain ⟨consulted, vector, embedded, same⟩ := semantic.query kept
      exact ⟨consulted, vector, List.mem_cons_of_mem _ embedded, same⟩

theorem LookupRun.get {deps : ChatDeps} {req : CanonicalRequest} {identity : Auth.Identity}
    {tr : Trace} {found : Lookup} {q : Query} {reply : Option CanonicalResponse}
    (h : LookupRun deps req identity tr found)
    (asked : (⟨.semanticGet q, reply⟩ : Event Op Op.Reply) ∈ tr) :
    consultsSemantic deps req = true ∧ ∃ vector,
      (⟨.embed (concatUserTurns req.messages), .ok vector⟩ : Event Op Op.Reply) ∈ tr ∧
      q = queryOf deps req identity vector := by
  cases h with
  | exact => simp at asked
  | direct semantic => exact semantic.get asked
  | missed miss semantic =>
      rcases List.mem_cons.mp asked with same | later
      · cases same
      · obtain ⟨consulted, vector, embedded, same⟩ := semantic.get later
        exact ⟨consulted, vector, List.mem_cons_of_mem _ embedded, same⟩

theorem runs_storeInCaches {deps : ChatDeps} {lookup : CacheLookup} {resp : CanonicalResponse}
    {ttlOverride : Option Duration} {tr : Trace} {u : Unit}
    (h : Runs (storeInCaches deps lookup resp ttlOverride) tr u) {q : Query}
    {stored : CanonicalResponse} {applied : Option Duration} :
    (⟨.semanticSet q stored applied, ()⟩ : Event Op Op.Reply) ∈ tr ↔
      ttlOverride.any (· ≤ 0) = false ∧ lookup.semanticEligible = true ∧
        q = lookup.semanticQuery ∧ stored = resp ∧ applied = ttlOverride := by
  unfold storeInCaches at h
  split at h
  · rename_i refused
    obtain ⟨rfl, -⟩ := runs_pure.mp h
    simp [refused]
  · rename_i accepted
    obtain ⟨first, reply, rest, rfl, exact, semantic⟩ := runs_bind.mp h
    have unseen : (⟨.semanticSet q stored applied, ()⟩ : Event Op Op.Reply) ∉ first := by
      unfold storeExact at exact
      split at exact
      · rw [runs_perform] at exact
        simp [exact]
      · simp [(runs_pure.mp exact).1]
    rw [List.mem_append, or_iff_right unseen, and_iff_right (Bool.eq_false_iff.mpr accepted)]
    unfold storeSemantic at semantic
    split at semantic
    · rename_i eligible
      rw [runs_perform] at semantic
      simp [semantic, eligible]
    · rename_i ineligible
      simp [(runs_pure.mp semantic).1, ineligible]

theorem rows_settling {deps : ChatDeps} {entry : Ledger.Entry} :
    ∀ ev ∈ rows deps entry, ev.1.isSettling := by
  unfold rows
  split <;> simp [Op.isSettling]

theorem streaming_stored {deps : ChatDeps} {r : Request} {a : Admitted} {tr : Trace} {out : Ended}
    {q : Query} {resp : CanonicalResponse} {ttlOverride : Option Duration}
    (h : Runs (handleStreamingChatCompletion deps r a) tr out)
    (set : (⟨.semanticSet q resp ttlOverride, ()⟩ : Event Op Op.Reply) ∈ tr) :
    ∃ look lookup etr suffix t str s result,
      Runs (checkCaches deps a.req a.identity) look (none, lookup) ∧ look ⊆ tr ∧
      Runs (deps.engine.executeStream a.tiers a.req) etr (some (.ok result)) ∧
      Handled (relay deps (streamContext r a suffix t)) {} etr str s ∧
      a.ttlOverride.any (· ≤ 0) = false ∧ lookup.semanticEligible = true ∧
      q = lookup.semanticQuery := by
  cases handleStreamingChatCompletion_cases h with
  | @hit look own tail cached tier lookup w out found served finish =>
      simp only [List.mem_append, List.mem_cons] at set
      rcases set with looked | adjusted | wrote | ended
      · exact ((checkCaches_within _ _ _).runs found _ looked).elim
      · cases adjusted
      · exact ((writeCachedStream_within _ _ _).runs served _ wrote).elim
      · exact ((finishCacheHit_within _ _ _ _ _ _).runs finish _ ended).elim
  | @streamed look str tail etr suffix t lookup s outcome out found run handled ending =>
      simp only [List.mem_append, List.mem_cons] at set
      rcases set with looked | named | timed | relayed | ended
      · exact ((checkCaches_within _ _ _).runs found _ looked).elim
      · cases named
      · cases timed
      · exact ((relayedRun_of_handled handled).ops _ relayed).elim
      · cases outcome with
        | error failure => exact ((handleStreamError_within _ _ _ _ _).runs ending _ ended).elim
        | ok result =>
            obtain ⟨-, mark, err, own, w, t', entry, store, -, rfl, sent, pushed, stored⟩ :=
              finishStream_cases ending
            simp only [List.mem_append, List.mem_cons] at ended
            rcases ended with marked | flushed | adjusted | timed | noted | kept
            · exact ((write_within _).runs sent _ marked).elim
            · exact ((flushIf_within _).runs pushed _ flushed).elim
            · cases adjusted
            · cases timed
            · exact (rows_settling _ noted).elim
            · obtain ⟨allowed, eligible, same, -⟩ := (runs_storeInCaches stored).mp kept
              exact ⟨look, lookup, etr, suffix, t, str, s, result, found,
                List.subset_append_left _ _, run, handled, allowed, eligible, same⟩

theorem completing_stored {deps : ChatDeps} {r : Request} {a : Admitted} {tr : Trace} {out : Ended}
    {q : Query} {resp : CanonicalResponse} {ttlOverride : Option Duration}
    (h : Runs (completeChat deps r a) tr out)
    (set : (⟨.semanticSet q resp ttlOverride, ()⟩ : Event Op Op.Reply) ∈ tr) :
    ∃ look lookup etr result answer,
      Runs (checkCaches deps a.req a.identity) look (none, lookup) ∧ look ⊆ tr ∧
      Runs (deps.engine.execute a.tiers a.req) etr (some (.ok result)) ∧
      result.response = some answer ∧ a.ttlOverride.any (· ≤ 0) = false ∧
      lookup.semanticEligible = true ∧ q = lookup.semanticQuery := by
  have unlifted : ∀ etr : Retry.Trace,
      (⟨.semanticSet q resp ttlOverride, ()⟩ : Event Op Op.Reply) ∉ etr.map Op.lift := by
    intro etr lifted
    obtain ⟨ev, -, same⟩ := List.mem_map.mp lifted
    cases same
  cases completeChat_cases h with
  | @hit look own tail cached tier lookup w out found served finish =>
      simp only [List.mem_append, List.mem_cons] at set
      rcases set with looked | adjusted | wrote | ended
      · exact ((checkCaches_within _ _ _).runs found _ looked).elim
      · cases adjusted
      · exact ((writeCachedResponse_within _ _).runs served _ wrote).elim
      · exact ((finishCacheHit_within _ _ _ _ _ _).runs finish _ ended).elim
  | @failed look own etr lookup failure w found run written =>
      simp only [List.mem_append, List.mem_cons] at set
      rcases set with looked | called | adjusted | wrote
      · exact ((checkCaches_within _ _ _).runs found _ looked).elim
      · exact absurd called (unlifted etr)
      · cases adjusted
      · exact ((reportEngineError_within _ _ _).runs written _ wrote).elim
  | @finished look tail etr lookup result out found run ending =>
      simp only [List.mem_append] at set
      rcases set with looked | called | ended
      · exact ((checkCaches_within _ _ _).runs found _ looked).elim
      · exact absurd called (unlifted etr)
      · cases answered : result.response with
        | none =>
            simp only [finishCompletion, answered] at ending
            simp [(runs_pure.mp ending).1] at ended
        | some answer =>
            obtain ⟨-, http, store, w, t, entry, -, rfl, written, stored⟩ :=
              finishCompletion_cases answered ending
            simp only [List.mem_append, List.mem_cons] at ended
            rcases ended with wrote | kept | adjusted | timed | noted
            · exact ((writeCompletion_within _ _ _ _).runs written _ wrote).elim
            · obtain ⟨allowed, eligible, same, -⟩ := (runs_storeInCaches stored).mp kept
              exact ⟨look, lookup, etr, result, answer, found, List.subset_append_left _ _, run,
                answered, allowed, eligible, same⟩
            · cases adjusted
            · cases timed
            · exact (rows_settling _ noted).elim

/-- Cache operations belong to admitted requests. -/
theorem chat_caching {deps : ChatDeps} {r : Request} {tr : Trace} {out : Ended}
    {ev : Event Op Op.Reply} (h : Runs (handleChatCompletions deps r) tr out) (member : ev ∈ tr)
    (caching : ev.1.isLookup ∨ ev.1.isStore) :
    ∃ start p rest, prepare deps r = .ok p ∧ rest ⊆ tr ∧ ev ∈ rest ∧
      (p.req.stream = true ∧
          Runs (handleStreamingChatCompletion deps r (afterReserve deps p start)) rest out ∨
        p.req.stream = false ∧ Runs (completeChat deps r (afterReserve deps p start)) rest out) := by
  have unwritten {own : Trace} (http : ∀ ev ∈ own, ev.1.isHttp) : ev ∉ own := by
    intro wrote
    obtain ⟨op, reply⟩ := ev
    have only := http _ wrote
    cases op with
    | http call => exact caching.elim id id
    | _ => exact only
  cases handleChatCompletions_cases h with
  | @refused start status message own refusal http =>
      rcases List.mem_cons.mp member with rfl | wrote
      · exact (caching.elim id id).elim
      · exact absurd wrote (unwritten http)
  | @unlimited start p err own ready http =>
      simp only [List.mem_cons] at member
      rcases member with rfl | rfl | wrote
      · exact (caching.elim id id).elim
      · exact (caching.elim id id).elim
      · exact absurd wrote (unwritten http)
  | @rejected start p decision own ready denied http =>
      simp only [List.mem_cons] at member
      rcases member with rfl | rfl | wrote
      · exact (caching.elim id id).elim
      · exact (caching.elim id id).elim
      · exact absurd wrote (unwritten http)
  | @admitted start p decision rest out ready granted branch =>
      simp only [List.mem_cons] at member
      rcases member with rfl | rfl | later
      · exact (caching.elim id id).elim
      · exact (caching.elim id id).elim
      · exact ⟨start, p, rest, ready,
          fun _ within => List.mem_cons_of_mem _ (List.mem_cons_of_mem _ within), later, branch⟩

/-- An entry is only stored for a request that the engine completed after a lookup of the
same query. -/
theorem StoredFor.inv {deps : ChatDeps} {embed : Embedder} {r : Request} {q : Query}
    {resp : CanonicalResponse} (h : StoredFor deps embed r q resp) :
    ∃ p vector, prepare deps r = .ok p ∧ consultsSemantic deps p.req = true ∧
      embed (concatUserTurns p.req.messages) = .ok vector ∧
      q = queryOf deps p.req p.identity vector ∧ p.ttlOverride.any (· ≤ 0) = false ∧
      Completes deps r p := by
  obtain ⟨tr, out, ttlOverride, run, embeds, set⟩ := h
  obtain ⟨start, p, rest, ready, within, later, branch⟩ := chat_caching run set (.inr trivial)
  rcases branch with ⟨stream, run⟩ | ⟨stream, run⟩
  · obtain ⟨look, lookup, etr, suffix, t, str, s, result, found, first, executed, handled,
      allowed, eligible, rfl⟩ := streaming_stored run later
    obtain ⟨consulted, vector, embedded, same⟩ := (checkCaches_cases found).query eligible
    exact ⟨p, vector, ready, consulted, (embeds _ _ (within (first embedded))).symm, same, allowed,
      .inl ⟨stream, start, suffix, t, etr, str, s, result, executed, handled⟩⟩
  · obtain ⟨look, lookup, etr, result, answer, found, first, executed, answered, allowed,
      eligible, rfl⟩ := completing_stored run later
    obtain ⟨consulted, vector, embedded, same⟩ := (checkCaches_cases found).query eligible
    exact ⟨p, vector, ready, consulted, (embeds _ _ (within (first embedded))).symm, same, allowed,
      .inr ⟨stream, etr, result, answer, executed, answered⟩⟩

theorem Op.isEnding.unlooked {o : Op} (h : o.isEnding) : ¬ o.isLookup := by
  cases o <;> first | exact id | exact h.elim

theorem Op.isRelay.unlooked {o : Op} (h : o.isRelay) : ¬ o.isLookup := by
  cases o <;> first | exact id | exact h.elim

theorem Op.isReplay.unlooked {o : Op} (h : o.isReplay) : ¬ o.isLookup := by
  cases o <;> first | exact id | exact h.elim

theorem lifted_unlooked (etr : Retry.Trace) : ∀ ev ∈ etr.map Op.lift, ¬ ev.1.isLookup := by
  intro ev lifted
  obtain ⟨inner, -, rfl⟩ := List.mem_map.mp lifted
  exact id

/-- After the lookup an admitted request looks nothing up. -/
theorem admitted_looks {deps : ChatDeps} {r : Request} {a : Admitted} {tr : Trace} {out : Ended}
    (h : Runs (handleStreamingChatCompletion deps r a) tr out ∨ Runs (completeChat deps r a) tr out) :
    ∃ look found rest, tr = look ++ rest ∧ Runs (checkCaches deps a.req a.identity) look found ∧
      ∀ ev ∈ rest, ¬ ev.1.isLookup := by
  rcases h with run | run
  · cases handleStreamingChatCompletion_cases run with
    | @hit look own tail cached tier lookup w out found served finish =>
        refine ⟨look, _, _, rfl, found, ?_⟩
        simp only [List.forall_mem_cons, List.forall_mem_append]
        exact ⟨id, fun ev member => ((writeCachedStream_within _ _ _).runs served ev member).unlooked,
          fun ev member => ((finishCacheHit_within _ _ _ _ _ _).runs finish ev member).ending.unlooked⟩
    | @streamed look str tail etr suffix t lookup s outcome out found run handled ending =>
        refine ⟨look, _, _, rfl, found, ?_⟩
        simp only [List.forall_mem_cons, List.forall_mem_append]
        exact ⟨id, id, fun ev member => ((relayedRun_of_handled handled).ops ev member).unlooked,
          fun ev member => ((endStream_within _ _ _ _ _ _ _).runs ending ev member).unlooked⟩
  · cases completeChat_cases run with
    | @hit look own tail cached tier lookup w out found served finish =>
        refine ⟨look, _, _, rfl, found, ?_⟩
        simp only [List.forall_mem_cons, List.forall_mem_append]
        exact ⟨id,
          fun ev member => ((writeCachedResponse_within _ _).runs served ev member).relay.unlooked,
          fun ev member => ((finishCacheHit_within _ _ _ _ _ _).runs finish ev member).ending.unlooked⟩
    | @failed look own etr lookup failure w found run written =>
        refine ⟨look, _, _, rfl, found, ?_⟩
        simp only [List.forall_mem_cons, List.forall_mem_append]
        exact ⟨lifted_unlooked etr, id,
          fun ev member =>
            ((reportEngineError_within _ _ _).runs written ev member).settling.ending.unlooked⟩
    | @finished look tail etr lookup result out found run ending =>
        refine ⟨look, _, _, rfl, found, ?_⟩
        simp only [List.forall_mem_append]
        exact ⟨lifted_unlooked etr,
          fun ev member => ((finishCompletion_within _ _ _ _ _).runs ending ev member).unlooked⟩

theorem AnsweredBy.inv {deps : ChatDeps} {embed : Embedder} {r : Request} {q : Query}
    {resp : CanonicalResponse} (h : AnsweredBy deps embed r q resp) :
    ∃ p vector, prepare deps r = .ok p ∧ consultsSemantic deps p.req = true ∧
      embed (concatUserTurns p.req.messages) = .ok vector ∧
      q = queryOf deps p.req p.identity vector := by
  obtain ⟨tr, out, run, embeds, asked⟩ := h
  obtain ⟨start, p, rest, ready, within, later, branch⟩ := chat_caching run asked (.inl trivial)
  obtain ⟨look, found, after, rfl, looked, unlooked⟩ :=
    admitted_looks (branch.imp And.right And.right)
  rcases List.mem_append.mp later with inside | outside
  · obtain ⟨consulted, vector, embedded, same⟩ := (checkCaches_cases looked).get inside
    exact ⟨p, vector, ready, consulted,
      (embeds _ _ (within (List.mem_append_left _ embedded))).symm, same⟩
  · exact absurd trivial (unlooked _ outside)

/-- Surroundings with this embedding model, in which Tier 1 misses and Tier 2 answers `hit`. -/
def lookedUp (embed : Embedder) (hit : Option CanonicalResponse) : (op : Op) → op.Reply
  | .embed text => embed text
  | .semanticGet _ => hit
  | op => smooth (calm (fun _ => ⟨.error (.other ""), 0⟩) (fun _ => ⟨[], none, 0⟩) []) [] op

instance (op : Op) : Nonempty op.Reply := ⟨lookedUp (fun _ => .ok []) none op⟩

theorem EmbedsBy.append {embed : Embedder} {tr₁ tr₂ : Trace} (first : EmbedsBy embed tr₁)
    (second : EmbedsBy embed tr₂) : EmbedsBy embed (tr₁ ++ tr₂) := fun text reply member =>
  (List.mem_append.mp member).elim (first text reply) (second text reply)

theorem EmbedsBy.cons {embed : Embedder} {ev : Event Op Op.Reply} {tr : Trace}
    (first : ¬ ev.1.isLookup) (rest : EmbedsBy embed tr) : EmbedsBy embed (ev :: tr) := by
  intro text reply member
  rcases List.mem_cons.mp member with rfl | later
  · exact absurd trivial first
  · exact rest text reply later

theorem EmbedsBy.of_unlooked {embed : Embedder} {tr : Trace} (h : ∀ ev ∈ tr, ¬ ev.1.isLookup) :
    EmbedsBy embed tr := fun _ _ member => absurd trivial (h _ member)

/-- The lookup of an eligible request reaches Tier 2, which may answer it or not. -/
theorem exists_lookup {deps : ChatDeps} {embed : Embedder} {req : CanonicalRequest}
    {vector : Embedding.Vector} (identity : Auth.Identity) (hit : Option CanonicalResponse)
    (consulted : consultsSemantic deps req = true)
    (embedded : embed (concatUserTurns req.messages) = .ok vector) :
    ∃ look lookup, Runs (checkCaches deps req identity) look
        (hit.map fun cached => (cached, .semantic), lookup) ∧ EmbedsBy embed look ∧
      lookup.semanticEligible = true ∧ lookup.semanticQuery = queryOf deps req identity vector ∧
      (⟨.semanticGet (queryOf deps req identity vector), hit⟩ : Event Op Op.Reply) ∈ look := by
  obtain ⟨look, found, run, answered⟩ : ∃ look found, Runs (checkCaches deps req identity) look found ∧
      ∀ ev ∈ look, ev.2 = lookedUp embed hit ev.1 :=
    ⟨_, _, exec_runs (fun _ => lookedUp embed hit) _ [], exec_answered (fun _ _ => rfl) _ []⟩
  have embeds : EmbedsBy embed look := fun text reply member => answered _ member
  have reached {key : String} {tr : Trace} (semantic : SemanticRun deps req identity key tr found)
      (within : tr ⊆ look) : ∃ lookup, found = (hit.map fun cached => (cached, .semantic), lookup) ∧
        lookup.semanticEligible = true ∧ lookup.semanticQuery = queryOf deps req identity vector ∧
        (⟨.semanticGet (queryOf deps req identity vector), hit⟩ : Event Op Op.Reply) ∈ look := by
    cases semantic with
    | skipped skipped => simp [consulted] at skipped
    | @failed err _ =>
        have reply : Except.error err = Except.ok vector :=
          (answered _ (within List.mem_cons_self)).trans embedded
        cases reply
    | @asked v reply _ =>
        have same : Except.ok v = Except.ok vector :=
          (answered _ (within List.mem_cons_self)).trans embedded
        have given : reply = hit :=
          answered _ (within (List.mem_cons_of_mem _ List.mem_cons_self))
        cases same
        cases given
        exact ⟨_, rfl, rfl, rfl, within (List.mem_cons_of_mem _ List.mem_cons_self)⟩
  have tier2 : ∃ lookup, found = (hit.map fun cached => (cached, .semantic), lookup) ∧
      lookup.semanticEligible = true ∧ lookup.semanticQuery = queryOf deps req identity vector ∧
      (⟨.semanticGet (queryOf deps req identity vector), hit⟩ : Event Op Op.Reply) ∈ look := by
    cases checkCaches_cases run with
    | exact => cases answered _ List.mem_cons_self
    | direct semantic => exact reached semantic (List.Subset.refl _)
    | missed miss semantic => exact reached semantic (List.subset_cons_self _ _)
  obtain ⟨lookup, rfl, eligible, query, asked⟩ := tier2
  exact ⟨look, lookup, run, embeds, eligible, query, asked⟩

/-- A run of either branch is part of a run of the handler with the same embeddings. -/
theorem exists_admitted {deps : ChatDeps} {embed : Embedder} {r : Request} {p : Prepared}
    {start : Int64} {look rest : Trace} {out : Ended} (ready : prepare deps r = .ok p)
    (branch : p.req.stream = true ∧
        Runs (handleStreamingChatCompletion deps r (afterReserve deps p start)) (look ++ rest) out ∨
      p.req.stream = false ∧ Runs (completeChat deps r (afterReserve deps p start)) (look ++ rest) out)
    (embeds : EmbedsBy embed look) (unlooked : ∀ ev ∈ rest, ¬ ev.1.isLookup) :
    ∃ tr, Runs (handleChatCompletions deps r) tr out ∧ EmbedsBy embed tr ∧ look ++ rest ⊆ tr := by
  have granted : ({ allowed := true } : RateLimit.Decision).allowed = true := rfl
  refine ⟨_, runs_admitted ready granted branch, ?_, ?_⟩
  · exact .cons id (.cons id (embeds.append (.of_unlooked unlooked)))
  · exact fun _ within => List.mem_cons_of_mem _ (List.mem_cons_of_mem _ within)

theorem exists_answered {deps : ChatDeps} {embed : Embedder} {r : Request} {p : Prepared}
    {vector : Embedding.Vector} (resp : CanonicalResponse) (ready : prepare deps r = .ok p)
    (consulted : consultsSemantic deps p.req = true)
    (embedded : embed (concatUserTurns p.req.messages) = .ok vector) :
    AnsweredBy deps embed r (queryOf deps p.req p.identity vector) resp := by
  obtain ⟨look, lookup, looked, embeds, -, -, asked⟩ :=
    exists_lookup p.identity (some resp) consulted embedded
  obtain ⟨tail, out, finish⟩ :=
    exists_run (finishCacheHit deps r p.identity .semantic resp 0)
  have settled := (finishCacheHit_within _ _ _ _ _ _).runs finish
  cases stream : p.req.stream with
  | true =>
      obtain ⟨own, u, served⟩ := exists_run (writeCachedStream r .semantic resp)
      have replayed := (writeCachedStream_within _ _ _).runs served
      have run : Runs (handleStreamingChatCompletion deps r (afterReserve deps p 0))
          (look ++ ⟨.adjust (afterReserve deps p 0).scopes (afterReserve deps p 0).cost, none⟩ :: (own ++ tail))
          out :=
        runs_bind.mpr ⟨look, _, _, rfl, looked, runs_perform_bind.mpr ⟨none, _, rfl,
          runs_bind.mpr ⟨own, u, tail, rfl, served, finish⟩⟩⟩
      obtain ⟨tr, handled, all, within⟩ := exists_admitted ready (.inl ⟨stream, run⟩) embeds (by
        simp only [List.forall_mem_cons, List.forall_mem_append]
        exact ⟨id, fun ev member => (replayed ev member).unlooked,
          fun ev member => (settled ev member).ending.unlooked⟩)
      exact ⟨tr, out, handled, all, within (List.mem_append_left _ asked)⟩
  | false =>
      obtain ⟨own, u, served⟩ := exists_run (writeCachedResponse .semantic resp)
      have written := (writeCachedResponse_within _ _).runs served
      have run : Runs (completeChat deps r (afterReserve deps p 0))
          (look ++ ⟨.adjust (afterReserve deps p 0).scopes (afterReserve deps p 0).cost, none⟩ :: (own ++ tail))
          out :=
        runs_bind.mpr ⟨look, _, _, rfl, looked, runs_perform_bind.mpr ⟨none, _, rfl,
          runs_bind.mpr ⟨own, u, tail, rfl, served, finish⟩⟩⟩
      obtain ⟨tr, handled, all, within⟩ := exists_admitted ready (.inr ⟨stream, run⟩) embeds (by
        simp only [List.forall_mem_cons, List.forall_mem_append]
        exact ⟨id, fun ev member => (written ev member).relay.unlooked,
          fun ev member => (settled ev member).ending.unlooked⟩)
      exact ⟨tr, out, handled, all, within (List.mem_append_left _ asked)⟩

theorem exists_stored {deps : ChatDeps} {embed : Embedder} {r : Request} {p : Prepared}
    {vector : Embedding.Vector} (ready : prepare deps r = .ok p)
    (consulted : consultsSemantic deps p.req = true)
    (embedded : embed (concatUserTurns p.req.messages) = .ok vector)
    (allowed : p.ttlOverride.any (· ≤ 0) = false) (completes : Completes deps r p) :
    ∃ resp, StoredFor deps embed r (queryOf deps p.req p.identity vector) resp := by
  obtain ⟨look, lookup, looked, embeds, eligible, query, -⟩ :=
    exists_lookup p.identity none consulted embedded
  rcases completes with ⟨stream, start, suffix, t, etr, str, s, result, executed, handled⟩ |
    ⟨stream, etr, result, answer, executed, answered⟩
  · obtain ⟨tail, out, ending⟩ := exists_run (finishStream deps r (afterReserve deps p start)
      (streamContext r (afterReserve deps p start) suffix t) lookup s result)
    have run : Runs (handleStreamingChatCompletion deps r (afterReserve deps p start))
        (look ++ ⟨.newRequestID, suffix⟩ :: ⟨.now, t⟩ :: (str ++ tail)) out :=
      runs_bind.mpr ⟨look, _, _, rfl, looked, runs_perform_bind.mpr ⟨suffix, _, rfl,
        runs_perform_bind.mpr ⟨t, _, rfl, runs_bind.mpr ⟨str, _, tail, rfl,
          runs_handle.mpr ⟨etr, executed, handled⟩, ending⟩⟩⟩⟩
    obtain ⟨tr, whole, all, within⟩ := exists_admitted ready (.inl ⟨stream, run⟩) embeds (by
      simp only [List.forall_mem_cons, List.forall_mem_append]
      exact ⟨id, id, fun ev member => ((relayedRun_of_handled handled).ops ev member).unlooked,
        fun ev member => ((finishStream_within _ _ _ _ _ _ _).runs ending ev member).unlooked⟩)
    obtain ⟨-, mark, err, own, w, t', entry, store, -, rfl, -, -, stored⟩ := finishStream_cases ending
    have set := (runs_storeInCaches stored).mpr ⟨allowed, eligible, query.symm, rfl, rfl⟩
    have kept : store ⊆ tr := fun _ member => within (by simp [member])
    exact ⟨_, tr, out, _, whole, all, kept set⟩
  · obtain ⟨tail, out, ending⟩ := exists_run (finishCompletion deps r (afterReserve deps p 0) lookup result)
    have run : Runs (completeChat deps r (afterReserve deps p 0)) (look ++ (etr.map Op.lift ++ tail)) out :=
      runs_bind.mpr ⟨look, _, _, rfl, looked, runs_bind.mpr ⟨_, _, tail, rfl,
        runs_handle.mpr ⟨etr, executed, direct_handled etr⟩, ending⟩⟩
    obtain ⟨tr, whole, all, within⟩ := exists_admitted ready (.inr ⟨stream, run⟩) embeds (by
      simp only [List.forall_mem_append]
      exact ⟨lifted_unlooked etr,
        fun ev member => ((finishCompletion_within _ _ _ _ _).runs ending ev member).unlooked⟩)
    obtain ⟨-, http, store, w, t, entry, -, rfl, -, stored⟩ := finishCompletion_cases answered ending
    have set := (runs_storeInCaches stored).mpr ⟨allowed, eligible, query.symm, rfl, rfl⟩
    have kept : store ⊆ tr := fun _ member => within (by simp [member])
    exact ⟨_, tr, out, _, whole, all, kept set⟩

theorem Reused.reusable {deps : ChatDeps} {embed : Embedder} {threshold : Value}
    {r₁ r₂ : Request} (h : Reused deps embed threshold r₁ r₂) :
    Reusable deps embed threshold r₁ r₂ := by
  obtain ⟨h, set, q, resp, now, proposed, sim, -, config, -, stored, hit, serves, answered⟩ := h
  obtain ⟨p₁, v₁, ready₁, consulted₁, embedded₁, query₁, allowed, completes⟩ := stored.inv
  obtain ⟨p₂, v₂, ready₂, consulted₂, embedded₂, rfl⟩ := answered.inv
  have notBelow : sim.lt threshold = false := config ▸ History.hit_notBelow hit
  have model := serves.model
  have tools := serves.toolsCanonical
  have format := serves.responseFormatCanonical
  have similar := serves.similar
  rw [query₁] at model tools format similar
  exact ⟨p₁, p₂, ready₁, ready₂, ⟨consulted₁, consulted₂, model, tools, format,
    v₁, v₂, sim, embedded₁, embedded₂, similar, notBelow⟩, allowed, completes⟩

theorem Reusable.reused {deps : ChatDeps} {embed : Embedder} {threshold : Value}
    {r₁ r₂ : Request} {id₁ id₂ : Auth.Identity} (h : Reusable deps embed threshold r₁ r₂)
    (known₁ : r₁.identity = some id₁) (known₂ : r₂.identity = some id₂)
    (org : id₁.orgID = id₂.orgID) : Reused deps embed threshold r₁ r₂ := by
  obtain ⟨p₁, p₂, ready₁, ready₂, comparable, allowed, completes⟩ := h
  have first := (prepare_ok ready₁).2.symm.trans known₁
  have second := (prepare_ok ready₂).2.symm.trans known₂
  simp only [Option.some.injEq] at first second
  subst first second
  obtain ⟨v₁, v₂, sim, embedded₁, embedded₂, similar, notBelow⟩ := comparable.similar
  obtain ⟨resp, stored⟩ := exists_stored ready₁ comparable.first embedded₁ allowed completes
  obtain ⟨h, set, proposed, run, config, member, query, response, hit, serves⟩ :=
    History.exists_hit (queryOf deps p₁.req p₁.identity v₁) (queryOf deps p₂.req p₂.identity v₂)
      resp org comparable.model comparable.tools comparable.responseFormat similar notBelow
  exact ⟨h, set, _, resp, 0, proposed, sim, run, config, member, by rwa [query, response], hit,
    serves, exists_answered resp ready₂ comparable.second embedded₂⟩

/-- Two requests of one org share a Tier-2 answer only if they were made alike, exactly when
they were or what the lookup compares keeps them apart. -/
theorem reuses_only_alike_iff {deps : ChatDeps} {r₁ r₂ : Request} {id₁ id₂ : Auth.Identity}
    (embed : Embedder) (threshold : Value) (known₁ : r₁.identity = some id₁)
    (known₂ : r₂.identity = some id₂) (org : id₁.orgID = id₂.orgID) :
    (Reused deps embed threshold r₁ r₂ → r₁.Alike r₂) ↔
      r₁.Alike r₂ ∨ ¬ Reusable deps embed threshold r₁ r₂ := by
  constructor
  · intro only_alike
    by_cases reusable : Reusable deps embed threshold r₁ r₂
    · exact .inl (only_alike (reusable.reused known₁ known₂ org))
    · exact .inr reusable
  · rintro (alike | apart) reused
    · exact alike
    · exact absurd reused.reusable apart

/-- The deployment with one provider and Tier 2. -/
def withTier2 : ChatDeps := { oneProvider with embedder := true, semanticCache := true }

def constantEmbedder : Embedder := fun _ => .ok [.finite 1]

/-- A request with this system prompt and this user text. -/
def prompted (system user : String) : Request :=
  asked { hello with messages := [⟨"system", system⟩, ⟨"user", user⟩] }

def greeting : CanonicalResponse := ⟨"c1", "chat.completion", 0, "large", [], ⟨1, 1, 2⟩⟩

/-- Execute against a provider that greets. -/
def greetedExecute (req : CanonicalRequest) : Retry.Trace × Option (Except Retry.Error Result) :=
  exec (calm (fun _ => ⟨.ok greeting, 0⟩) fun _ => ⟨[], none, 0⟩)
    (withTier2.engine.execute [⟨[⟨"primary", "large", 1⟩]⟩] req) []

/-- Nothing the lookup compares depends on the system prompt. -/
theorem prompted_reused (system₁ system₂ user₁ user₂ : String) :
    Reused withTier2 constantEmbedder (.finite (1 / 2)) (prompted system₁ user₁)
      (prompted system₂ user₂) := by
  let req : CanonicalRequest := { hello with messages := [⟨"system", system₁⟩, ⟨"user", user₁⟩] }
  have executed : Runs (withTier2.engine.execute [⟨[⟨"primary", "large", 1⟩]⟩] req)
    (greetedExecute req).1 (greetedExecute req).2 := exec_runs _ _ _
  have answers : ∃ result answer, (greetedExecute req).2 = some (.ok result) ∧
      result.response = some answer := ⟨_, _, rfl, rfl⟩
  obtain ⟨result, answer, same, answered⟩ := answers
  rw [same] at executed
  have similar : cosineSimilarity [.finite 1] [.finite 1] = .ok (.finite 1) := by decide +kernel
  have reusable : Reusable withTier2 constantEmbedder (.finite (1 / 2)) (prompted system₁ user₁)
      (prompted system₂ user₂) :=
    ⟨_, _, rfl, rfl, ⟨rfl, rfl, rfl, rfl, rfl, _, _, _, rfl, rfl, similar, by decide +kernel⟩, rfl,
      .inr ⟨rfl, _, result, answer, executed, answered⟩⟩
  exact reusable.reused rfl rfl rfl

theorem same_prompt_reuse_alike :
    Reused withTier2 constantEmbedder (.finite (1 / 2)) (prompted "Be brief." "hi")
        (prompted "Be brief." "hello") ∧
      (prompted "Be brief." "hi").Alike (prompted "Be brief." "hello") := by
  have reused := prompted_reused "Be brief." "Be brief." "hi" "hello"
  refine ⟨reused, (reuses_only_alike_iff constantEmbedder (.finite (1 / 2)) rfl rfl rfl).mpr
    (.inl ?_) reused⟩
  rintro req₁ req₂ body₁ body₂
  cases body₁
  cases body₂
  exact ⟨rfl, rfl, rfl, rfl, rfl, rfl⟩

/-- The two requests ask the same of different systems. -/
theorem other_prompt_reused :
    Reused withTier2 constantEmbedder (.finite (1 / 2)) (prompted "Answer in French." "hi")
        (prompted "Answer in German." "hi") ∧
      ¬ (prompted "Answer in French." "hi").Alike (prompted "Answer in German." "hi") := by
  refine ⟨prompted_reused _ _ _ _, fun alike => ?_⟩
  have others := (alike _ _ rfl rfl).others
  revert others
  decide

end Gateway.Server
