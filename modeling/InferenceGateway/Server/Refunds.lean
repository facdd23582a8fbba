import InferenceGateway.RateLimit.Limiter
import InferenceGateway.Server.Minting
import InferenceGateway.Server.Settlement

/-! What Reserve and Adjust of one request do to its buckets when Redis fails one of them, or
the request's context is done before the refund. -/
namespace Gateway.Server
open Gateway.Providers Gateway.Retry
open Gateway.RateLimit (Limiter Fate Redis Refunded reserveAdds adjustAdds returned recorded)
open Interaction hiding Program.perform
open Interaction.Program hiding pure perform

/-- The provider is down, and the engine finds the given context error after a failure. -/
def downEngine (ctxErr : Option CtxError) : (o : Retry.Op) → o.Reply
  | .ctxErr => ctxErr
  | o => calm (fun _ => ⟨.error (.api { statusCode := 503, message := "down" }), 0⟩)
      (fun _ => ⟨[], none, 0⟩) [] o

/-- Smooth surroundings, but for the limiter's answer and the engine. -/
def limited (decided : Except String RateLimit.Decision) (engine : (o : Retry.Op) → o.Reply) :
    (op : Op) → op.Reply
  | .reserve _ _ => decided
  | op => smooth engine [] op

/-- A request of 108 tokens to the provider that is down, its Reserve having the given fate. -/
def downRun (fate : Fate) (ctxErr : Option CtxError) : Trace × Ended :=
  exec (fun _ => limited
      ((⟨true⟩ : Limiter).reserve fate (fun _ => none) (requestScopes oneProvider caller) 108 0).1
      (downEngine ctxErr))
    (handleChatCompletions oneProvider (asked hello)) []

/-- A request's context along a run: whether it is done after a trace of operations. Done it
stays done, and it is done once the engine has seen its error. -/
structure RequestContext where
  done : Trace → Bool
  err : CtxError
  stays : ∀ past more, done past = true → done (past ++ more) = true
  seen : ∀ past err, done (past ++ [⟨.engine .ctxErr, some err⟩]) = true

/-- A healthy Redis executes what is issued on a live context. -/
def RequestContext.fate (ctx : RequestContext) (past : Trace) : Fate :=
  if ctx.done past then .unexecuted ctx.err.error else .answered

def untilReserve (tr : Trace) : Trace := tr.takeWhile fun ev => (reservation ev).isNone

def untilAdjust (tr : Trace) : Trace := tr.takeWhile fun ev => (adjustment ev).isNone

/-- What a run had reserved: nothing if its context was done by the time of Reserve. -/
def RequestContext.reserved (ctx : RequestContext) (tr : Trace) (cost : Int64) : Int64 :=
  if ctx.done (untilReserve tr) then 0 else cost

/-- The run of an admitted request in which nothing is served: the caches miss, and Execute
fails, or ExecuteStream fails with nothing flushed. -/
inductive Unserved (deps : ChatDeps) (r : Request) (a : Admitted) : Trace → Prop
  | execute {look tail : Trace} {etr : Retry.Trace} {lookup : CacheLookup} {failure : Retry.Error} :
      a.req.stream = false → Runs (checkCaches deps a.req a.identity) look (none, lookup) →
      Runs (deps.engine.execute a.tiers a.req) etr (some (.error failure)) →
      Unserved deps r a (look ++ (etr.map Op.lift ++ tail))
  | stream {look str tail : Trace} {etr : Retry.Trace} {suffix : String} {t : Int64}
      {lookup : CacheLookup} {s : StreamState} {failure : StreamError} :
      a.req.stream = true → Runs (checkCaches deps a.req a.identity) look (none, lookup) →
      Runs (deps.engine.executeStream a.tiers a.req) etr (some (.error failure)) →
      Handled (relay deps (streamContext r a suffix t)) {} etr str s → failure.flushed = false →
      Unserved deps r a (look ++ ⟨.newRequestID, suffix⟩ :: ⟨.now, t⟩ :: (str ++ tail))

section Unserved
variable {deps : ChatDeps} {r : Request} {a : Admitted} {rest : Trace} {out : Ended}

/-- Either branch then refunds the whole cost, in its only Adjust call. -/
theorem Unserved.refunds (h : Unserved deps r a rest)
    (run : a.req.stream = true ∧ Runs (handleStreamingChatCompletion deps r a) rest out ∨
      a.req.stream = false ∧ Runs (completeChat deps r a) rest out) :
    ∃ before w own, rest = before ++ ⟨.adjust a.scopes a.cost, w⟩ :: own ∧
      (∀ ev ∈ before, ev.1.isQuiet) ∧ ∀ ev ∈ own, ev.1.isQuiet := by
  cases h with
  | @execute look tail etr lookup failure complete missed failed =>
      rcases run with ⟨streaming, -⟩ | ⟨-, run⟩
      · exact absurd (complete.symm.trans streaming) nofun
      have looked := (checkCaches_within _ _ _).runs missed
      have called : Runs ((deps.engine.execute a.tiers a.req).handle direct ()) (etr.map Op.lift)
          (some (.error failure), ()) := runs_handle.mpr ⟨etr, failed, direct_handled etr⟩
      have finish := called.of_bind (missed.of_bind run)
      obtain ⟨w, rest', rfl, written⟩ := runs_perform_bind.mp finish
      obtain ⟨own, u, last, rfl, error, done⟩ := runs_bind.mp written
      obtain ⟨rfl, rfl⟩ := runs_pure.mp done
      refine ⟨look ++ etr.map Op.lift, w, own, by simp, ?_, ?_⟩
      · apply quiet_append fun ev member => (looked ev member).quiet
        intro ev member
        obtain ⟨inner, -, rfl⟩ := List.mem_map.mp member
        trivial
      · exact quiet_of_report ((reportEngineError_within _ _ _).runs error)
  | @stream look str tail etr suffix t lookup s failure streaming missed failed handled unflushed =>
      rcases run with ⟨-, run⟩ | ⟨complete, -⟩
      swap
      · exact absurd (complete.symm.trans streaming) nofun
      have looked := (checkCaches_within _ _ _).runs missed
      have relayed := relayedRun_of_handled handled
      have called : Runs ((deps.engine.executeStream a.tiers a.req).handle
          (relay deps (streamContext r a suffix t)) {}) str (some (.error failure), s) :=
        runs_handle.mpr ⟨etr, failed, handled⟩
      obtain ⟨_, _, same, timed⟩ := runs_perform_bind.mp (missed.of_bind run)
      cases same
      obtain ⟨_, _, same, streamed⟩ := runs_perform_bind.mp timed
      cases same
      obtain ⟨-, w, own, rfl, error⟩ := handleStreamError_unflushed unflushed (called.of_bind streamed)
      refine ⟨look ++ ⟨.newRequestID, suffix⟩ :: ⟨.now, t⟩ :: str, w, own, by simp, ?_, ?_⟩
      · apply quiet_append fun ev member => (looked ev member).quiet
        exact quiet_cons trivial (quiet_cons trivial fun ev member => (relayed.ops ev member).quiet)
      · exact quiet_of_report ((reportEngineError_within _ _ _).runs error)

end Unserved

/-- The same for a whole run of the handler, from the reservation it was allowed. -/
def EndsUnserved (deps : ChatDeps) (r : Request) (p : Prepared) (tr : Trace) : Prop :=
  ∃ start scopes cost decided rest,
    tr = ⟨.now, start⟩ :: ⟨.reserve scopes cost, decided⟩ :: rest ∧
      Unserved deps r (afterReserve deps p start) rest

theorem RequestContext.fate_executes (ctx : RequestContext) (past : Trace) :
    (ctx.fate past).executes = true ↔ ctx.done past = false := by
  unfold fate
  cases ctx.done past <;> simp [Fate.executes]

theorem untilAdjust_append {past own : Trace} {scopes : RateLimit.Scopes} {delta : Int64}
    {w : Option String} (none : adjusts past = []) :
    untilAdjust (past ++ ⟨.adjust scopes delta, w⟩ :: own) = past := by
  have silent : ∀ ev ∈ past, (adjustment ev).isNone = true := by
    intro ev member
    rw [Option.isNone_iff_eq_none]
    exact List.filterMap_eq_nil_iff.mp none ev member
  rw [untilAdjust, List.takeWhile_append_of_pos silent]
  exact List.append_nil past

/-- An unserved request makes one Adjust call, for its cost and on its own context. With a
healthy Redis that brings back what was reserved, whatever the buckets hold by then, exactly
if the context is not done yet or nothing was reserved. -/
theorem unserved_refunded_iff {deps : ChatDeps} {r : Request} {p : Prepared} {tr : Trace}
    {out : Ended} {scopes : RateLimit.Scopes} {cost : Int64} (ready : prepare deps r = .ok p)
    (h : Runs (handleChatCompletions deps r) tr out) (allowed : (scopes, cost) ∈ admissions tr)
    (unserved : EndsUnserved deps r p tr) (ctx : RequestContext) (l : Limiter) :
    adjusts tr = [(scopes, cost)] ∧
      ((∀ redis now, Refunded redis (l.adjust (ctx.fate (untilAdjust tr)) redis scopes cost now).2
          scopes (ctx.reserved tr cost).toInt now) ↔
        ctx.done (untilAdjust tr) = false ∨ ctx.reserved tr cost = 0) := by
  obtain ⟨start, p', decision, rest, ready', rfl, rfl, rfl, -, branch⟩ := chat_admitted h allowed
  rw [ready] at ready'
  cases ready'
  obtain ⟨_, _, _, _, _, same, unserved⟩ := unserved
  cases same
  obtain ⟨before, w, own, rfl, early, late⟩ := unserved.refunds branch
  let past : Trace := ⟨.now, start⟩ :: ⟨.reserve (requestScopes deps p.identity)
    (reservationCost deps p.req), .ok decision⟩ :: before
  have silent : adjusts past = [] := by
    show adjusts before = []
    exact adjusts_of_quiet early
  change adjusts (past ++ ⟨.adjust (requestScopes deps p.identity) (reservationCost deps p.req), w⟩ ::
    own) = _ ∧ _
  constructor
  · rw [adjusts_append, silent]
    show (_ :: adjusts own) = _
    rw [adjusts_of_quiet late]
  · have cut : untilAdjust (⟨.now, start⟩ :: ⟨.reserve (requestScopes deps p.identity)
        (reservationCost deps p.req), .ok decision⟩ :: (before ++ ⟨.adjust (afterReserve deps p start).scopes
          (afterReserve deps p start).cost, w⟩ :: own)) = past := untilAdjust_append silent
    have first : untilReserve (⟨.now, start⟩ :: ⟨.reserve (requestScopes deps p.identity)
        (reservationCost deps p.req), .ok decision⟩ :: (before ++ ⟨.adjust (afterReserve deps p start).scopes
          (afterReserve deps p start).cost, w⟩ :: own)) = [⟨.now, start⟩] := rfl
    rw [cut, RequestContext.reserved, first]
    cases gone : ctx.done [⟨.now, start⟩] with
    | true =>
        -- Nothing was reserved, and nothing is given back.
        refine iff_of_true (fun redis now => ?_) (.inr rfl)
        have still : ctx.done past = true := ctx.stays [⟨.now, start⟩] _ gone
        rw [Limiter.adjust_state, if_neg (by
          rw [ctx.fate_executes]
          rintro ⟨live, -⟩
          exact absurd (still.symm.trans live) nofun)]
        exact RateLimit.refunded_zero _ _ _
    | false =>
        simp only [Bool.false_eq_true, if_false]
        rw [RateLimit.adjust_refunded_iff, ctx.fate_executes]

/-- A context that is done exactly from the first error the engine has seen of it. -/
def seenContext : RequestContext where
  done past := past.any fun ev =>
    match ev with
    | ⟨.engine .ctxErr, some _⟩ => true
    | _ => false
  err := .deadlineExceeded
  stays past more gone := by
    rw [List.any_append, gone]
    rfl
  seen past err := by
    rw [List.any_append]
    simp

/-- A run up to the refund, around a cache lookup and a run of Execute. -/
def untilRefund (deps : ChatDeps) (p : Prepared) (look : Trace) (etr : Retry.Trace) : Trace :=
  ⟨.now, 0⟩ :: ⟨.reserve (requestScopes deps p.identity) (reservationCost deps p.req),
    .ok { allowed := true }⟩ :: (look ++ etr.map Op.lift)

/-- Every failing run of Execute is part of an unserved run of the handler. -/
theorem exists_unserved_run {deps : ChatDeps} {r : Request} {p : Prepared} {look : Trace}
    {etr : Retry.Trace} {lookup : CacheLookup} {failure : Retry.Error}
    (ready : prepare deps r = .ok p) (complete : p.req.stream = false)
    (missed : Runs (checkCaches deps p.req p.identity) look (none, lookup))
    (failed : Runs (deps.engine.execute p.tiers p.req) etr (some (.error failure))) :
    ∃ own, Runs (handleChatCompletions deps r) (untilRefund deps p look etr ++
        ⟨.adjust (requestScopes deps p.identity) (reservationCost deps p.req), none⟩ :: own) .returned ∧
      EndsUnserved deps r p (untilRefund deps p look etr ++
        ⟨.adjust (requestScopes deps p.identity) (reservationCost deps p.req), none⟩ :: own) := by
  obtain ⟨own, written⟩ : ∃ own, Runs (reportEngineError r failure.err failure.attempts) own () :=
    ⟨_, exec_runs (smooth (downEngine none)) _ []⟩
  have called : Runs ((deps.engine.execute p.tiers p.req).handle direct ()) (etr.map Op.lift)
    (some (.error failure), ()) := runs_handle.mpr ⟨etr, failed, direct_handled etr⟩
  have run : Runs (completeChat deps r (afterReserve deps p 0)) (look ++ (etr.map Op.lift ++
      ⟨.adjust (requestScopes deps p.identity) (reservationCost deps p.req), none⟩ :: own))
      .returned := by
    refine runs_bind.mpr ⟨look, _, _, rfl, missed, runs_bind.mpr ⟨_, _, _, rfl, called, ?_⟩⟩
    refine runs_perform_bind.mpr ⟨none, own, rfl, runs_bind.mpr ⟨own, (), [], ?_, written, .pure _⟩⟩
    rw [List.append_nil]
  have shape : untilRefund deps p look etr ++
      ⟨.adjust (requestScopes deps p.identity) (reservationCost deps p.req), none⟩ :: own =
      ⟨.now, 0⟩ :: ⟨.reserve (requestScopes deps p.identity) (reservationCost deps p.req),
        .ok { allowed := true }⟩ :: (look ++ (etr.map Op.lift ++
          ⟨.adjust (requestScopes deps p.identity) (reservationCost deps p.req), none⟩ :: own)) := by
    simp [untilRefund]
  refine ⟨own, ?_⟩
  rw [shape]
  exact ⟨runs_admitted ready rfl (.inr ⟨complete, run⟩), 0, _, _, _, _, rfl,
    .execute complete missed failed⟩

def helloPrepared : Prepared := ⟨hello, caller, [⟨[⟨"primary", "large", 1⟩]⟩], none⟩

/-- Execute against the provider that is down. -/
def downExecute (ctxErr : Option CtxError) : Retry.Trace × Option (Except Retry.Error Result) :=
  exec (fun _ => downEngine ctxErr) (oneProvider.engine.execute helloPrepared.tiers hello) []

/-- The request up to its refund, when Execute ends in the given context error. -/
def downPast (ctxErr : Option CtxError) : Trace :=
  untilRefund oneProvider helloPrepared [⟨.cacheGet "cache:exact:acme:chat", .ok none⟩]
    (downExecute ctxErr).1

theorem exists_down_run (ctxErr : Option CtxError)
    (fails : (downExecute ctxErr).2.any (fun out => out.toOption.isNone) = true) :
    ∃ own, Runs (handleChatCompletions oneProvider (asked hello)) (downPast ctxErr ++
        ⟨.adjust (requestScopes oneProvider caller) 108, none⟩ :: own) .returned ∧
      EndsUnserved oneProvider (asked hello) helloPrepared (downPast ctxErr ++
        ⟨.adjust (requestScopes oneProvider caller) 108, none⟩ :: own) := by
  have executed : Runs (oneProvider.engine.execute helloPrepared.tiers hello) (downExecute ctxErr).1
    (downExecute ctxErr).2 := exec_runs _ _ _
  obtain ⟨outcome, same, -⟩ := Engine.execute_returns executed
  rw [same] at executed fails
  unfold downPast
  generalize (downExecute ctxErr).1 = etr at *
  have missed : Runs (checkCaches oneProvider hello caller)
      [⟨.cacheGet "cache:exact:acme:chat", .ok none⟩]
      (none, { exactCacheKey := "cache:exact:acme:chat" }) :=
    runs_perform_bind.mpr ⟨.ok none, [], rfl, .pure _⟩
  cases outcome with
  | ok result => cases fails
  | error failure => exact exists_unserved_run (p := helloPrepared) rfl rfl missed executed

theorem downPast_admits (ctxErr : Option CtxError) (rest : Trace) :
    (requestScopes oneProvider caller, 108) ∈ admissions (downPast ctxErr ++ rest) :=
  List.mem_filterMap.mpr ⟨⟨.reserve (requestScopes oneProvider caller) 108, .ok { allowed := true }⟩,
    List.mem_cons_of_mem _ List.mem_cons_self, rfl⟩

/-- On a context that lives on, the failed request gets its 108 tokens back. -/
theorem live_context_refunded : ∃ own,
    let tr := downPast none ++ ⟨.adjust (requestScopes oneProvider caller) 108, none⟩ :: own
    Runs (handleChatCompletions oneProvider (asked hello)) tr .returned ∧
      ∀ redis now, Refunded redis ((⟨true⟩ : Limiter).adjust (seenContext.fate (untilAdjust tr)) redis
        (requestScopes oneProvider caller) 108 now).2 (requestScopes oneProvider caller) 108 now := by
  obtain ⟨own, run, unserved⟩ := exists_down_run none (by decide +kernel)
  have live : seenContext.done (downPast none) = false := by decide +kernel
  have silent : adjusts (downPast none) = [] := by decide +kernel
  have refunded := (unserved_refunded_iff rfl run (downPast_admits none _) unserved seenContext
    ⟨true⟩).2.mpr (.inl (by rw [untilAdjust_append silent]; exact live))
  exact ⟨own, run, refunded⟩

/-- The deadline ends the request: the engine reports it, and the refund on the same context
is never executed. A drained bucket stays drained. -/
theorem expired_context_unrefunded : ∃ own,
    let tr := downPast (some .deadlineExceeded) ++
      ⟨.adjust (requestScopes oneProvider caller) 108, none⟩ :: own
    Runs (handleChatCompletions oneProvider (asked hello)) tr .returned ∧
      EndsUnserved oneProvider (asked hello) helloPrepared tr ∧
      seenContext.reserved tr 108 = 108 ∧
      ¬ Refunded (fun _ => some ⟨0, 5, 125⟩) ((⟨true⟩ : Limiter).adjust
        (seenContext.fate (untilAdjust tr)) (fun _ => some ⟨0, 5, 125⟩)
        (requestScopes oneProvider caller) 108 5).2 (requestScopes oneProvider caller) 108 5 := by
  obtain ⟨own, run, unserved⟩ := exists_down_run (some .deadlineExceeded) (by decide +kernel)
  have silent : adjusts (downPast (some .deadlineExceeded)) = [] := by decide +kernel
  have fate : seenContext.fate (downPast (some .deadlineExceeded)) =
      .unexecuted "context deadline exceeded" := by decide +kernel
  refine ⟨own, run, unserved, rfl, ?_⟩
  rw [untilAdjust_append silent, fate]
  unfold Refunded
  decide +kernel

end Gateway.Server
