import InferenceGateway.Retry.Rounds

/-! Failures without an HTTP status: timeouts, refused dials, reset connections. The
shared table classifies them Terminal, so such a failure is the end of the run. -/
namespace Gateway.Retry
open Gateway.Providers Interaction Interaction.Program

def statuslessError (failure : Option CallError) : Option CallError :=
  failure.filter fun err => err.asAPIError.isNone

/-- A provider call that failed without a status, and without content when streamed. -/
def statuslessFailure : Event Op Op.Reply → Option CallError
  | ⟨.complete _ _, reply⟩ =>
      match CompleteReply.result reply with
      | .error err => statuslessError (some err)
      | .ok _ => none
  | ⟨.stream _ _, reply⟩ =>
      if (StreamReply.deltas reply).all (fun d => d.content == "") then
        statuslessError (StreamReply.err reply)
      else none
  | _ => none

def Op.isTry : Op → Bool
  | .allow _ _ | .complete _ _ | .stream _ _ => true
  | _ => false

def refusal : Event Op Op.Reply → Option CallError
  | ⟨.onDelta _ _ _, reply⟩ => reply
  | _ => none

def Op.isCallback : Op → Bool
  | .onDelta _ _ _ => true
  | _ => false

def Quiet (tr : Trace) : Prop := ∀ ev ∈ tr, statuslessFailure ev = none

/-- The trace has exactly one statusless failure, and only callbacks follow it. -/
def EndsIn (err : CallError) (tr : Trace) : Prop :=
  ∃ before ev after, tr = before ++ ev :: after ∧ Quiet before ∧
    statuslessFailure ev = some err ∧ ∀ next ∈ after, next.1.isCallback = true

theorem statuslessError_eq_some {failure : Option CallError} {err : CallError} :
    statuslessError failure = some err ↔ failure = some err ∧ err.asAPIError = none := by
  simp [statuslessError, Option.filter_eq_some_iff]

theorem quiet_append {tr₁ tr₂ : Trace} : Quiet (tr₁ ++ tr₂) ↔ Quiet tr₁ ∧ Quiet tr₂ :=
  List.forall_mem_append

theorem quiet_cons {ev : Event Op Op.Reply} {tr : Trace} :
    Quiet (ev :: tr) ↔ statuslessFailure ev = none ∧ Quiet tr :=
  List.forall_mem_cons

theorem quiet_nil : Quiet [] := by simp [Quiet]

theorem quiet_single {ev : Event Op Op.Reply} (h : statuslessFailure ev = none) : Quiet [ev] :=
  quiet_cons.mpr ⟨h, quiet_nil⟩

theorem quiet_of_waits {tr : Trace} (h : ∀ ev ∈ tr, ev.1.isWait = true) : Quiet tr := by
  rintro ⟨op, reply⟩ member
  have wait := h _ member
  cases op <;> first | rfl | cases wait

theorem quiet_of_polls {tr : Trace} (h : ∀ ev ∈ tr, ev.1.isPoll = true) : Quiet tr := by
  rintro ⟨op, reply⟩ member
  have poll := h _ member
  cases op <;> first | rfl | cases poll

theorem statusless_callback {ev : Event Op Op.Reply} (h : ev.1.isCallback = true) :
    statuslessFailure ev = none ∧ ev.1.isTry = false := by
  rcases ev with ⟨op, reply⟩
  cases op <;> first | exact ⟨rfl, rfl⟩ | cases h

theorem EndsIn.prepend {err : CallError} {tr first : Trace} (h : EndsIn err tr)
    (quiet : Quiet first) : EndsIn err (first ++ tr) := by
  obtain ⟨before, ev, after, rfl, clean, failed, only⟩ := h
  refine ⟨first ++ before, ev, after, by simp, ?_, failed, only⟩
  exact quiet_append.mpr ⟨quiet, clean⟩

/-- Either no statusless failure occurred, or the trace ends in one and `stop` holds of it. -/
def Settles (tr : Trace) (stop : CallError → Prop) : Prop :=
  Quiet tr ∨ ∃ err, EndsIn err tr ∧ stop err

theorem Settles.prepend {tr first : Trace} {stop : CallError → Prop} (quiet : Quiet first)
    (h : Settles tr stop) : Settles (first ++ tr) stop := by
  rcases h with rest | ⟨err, ends, stopped⟩
  · exact .inl (quiet_append.mpr ⟨quiet, rest⟩)
  · exact .inr ⟨err, ends.prepend quiet, stopped⟩

theorem Settles.mono {tr : Trace} {stop stop' : CallError → Prop} (h : Settles tr stop)
    (weaker : ∀ err, stop err → stop' err) : Settles tr stop' := by
  rcases h with quiet | ⟨err, ends, stopped⟩
  · exact .inl quiet
  · exact .inr ⟨err, ends, weaker err stopped⟩

/-- Any statusless failure of such a trace is the one it ends in. -/
theorem EndsIn.unique {err err' : CallError} {tr before after : Trace} {ev : Event Op Op.Reply}
    (h : EndsIn err tr) (split : tr = before ++ ev :: after)
    (failed : statuslessFailure ev = some err') :
    err' = err ∧ ∀ next ∈ after, next.1.isTry = false := by
  obtain ⟨before', ev', after', rfl, clean, failed', only⟩ := h
  rcases List.append_eq_append_iff.mp split with ⟨gap, rfl, tail⟩ | ⟨gap, rfl, tail⟩
  · cases gap with
    | nil =>
        obtain ⟨rfl, rfl⟩ := List.cons.inj tail
        rw [failed'] at failed
        cases failed
        exact ⟨rfl, fun next member => (statusless_callback (only next member)).2⟩
    | cons first gap =>
        obtain ⟨rfl, rfl⟩ := List.cons.inj tail
        have callback := only ev (by simp)
        rw [(statusless_callback callback).1] at failed
        cases failed
  · cases gap with
    | nil =>
        obtain ⟨rfl, rfl⟩ := List.cons.inj tail
        rw [failed'] at failed
        cases failed
        exact ⟨rfl, fun next member => (statusless_callback (only next member)).2⟩
    | cons first gap =>
        obtain ⟨rfl, rfl⟩ := List.cons.inj tail
        rw [clean ev (by simp)] at failed
        cases failed

/-- A settled trace that holds a statusless failure stops there. -/
theorem Settles.at_failure {tr before after : Trace} {ev : Event Op Op.Reply} {err : CallError}
    {stop : CallError → Prop} (h : Settles tr stop) (split : tr = before ++ ev :: after)
    (failed : statuslessFailure ev = some err) :
    (∀ next ∈ after, next.1.isTry = false) ∧ stop err := by
  rcases h with quiet | ⟨err', ends, stopped⟩
  · rw [quiet ev (by simp [split])] at failed
    cases failed
  · obtain ⟨rfl, none⟩ := ends.unique split failed
    exact ⟨none, stopped⟩

namespace Engine
variable {e : Engine} {tier : Tier} {tried : List String} {req providerReq : CanonicalRequest}
  {c : Candidate}

/-- Every wired provider classifies by the shared table. -/
def SharedTable (e : Engine) : Prop := ∀ name p, e.providers name = some p → p.ClassifiesByStatus

theorem classify_statusless (shared : e.SharedTable) {err : CallError} (name : String)
    (h : err.asAPIError = none) : e.classify name err = .terminal := by
  unfold classify
  cases hp : e.providers name with
  | none => rfl
  | some p =>
      simp only
      rw [shared name p hp err err.status]
      exact classifyByStatus_statusless h

theorem attemptLoop_statusless (shared : e.SharedTable) {remaining attempt : Nat}
    {lastErr : Option CallError} {attempts : List Attempt} {duration : Duration} {tr : Trace}
    {t : Tried}
    (h : Runs (e.attemptLoop c providerReq remaining attempt lastErr attempts duration) tr t) :
    Settles tr fun err => t.err = some (.call err) ∧ e.classify c.providerName err = .terminal := by
  induction remaining generalizing attempt lastErr attempts duration tr with
  | zero =>
      obtain ⟨rfl, -⟩ := runs_pure.mp h
      exact .inl quiet_nil
  | succ remaining ih =>
      obtain ⟨go, tr₁, tr₂, rfl, wait, ⟨-, rfl, -⟩ | ⟨-, reply, tr₃, rfl, after⟩⟩ :=
        attemptLoop_succ h
      · exact .inl (by simpa using quiet_of_waits (waitBefore_waits wait))
      · have waits := quiet_of_waits (waitBefore_waits wait)
        generalize hr : reply.result = result at after
        cases hs : statuslessFailure ⟨.complete c.providerName providerReq, reply⟩ with
        | some err =>
            simp only [statuslessFailure, hr] at hs
            cases after with
            | success resp => cases hs
            | terminal err' fatal =>
                obtain ⟨same, -⟩ := statuslessError_eq_some.mp hs
                cases same
                refine .inr ⟨err, ⟨tr₁, _, [], rfl, waits, ?_, by simp⟩, rfl, fatal⟩
                simpa [statuslessFailure, hr] using hs
            | fallback err' soft =>
                obtain ⟨same, status⟩ := statuslessError_eq_some.mp hs
                cases same
                rw [classify_statusless shared _ status] at soft
                cases soft
            | retry err' soft again =>
                obtain ⟨same, status⟩ := statuslessError_eq_some.mp hs
                cases same
                rw [classify_statusless shared _ status] at soft
                cases soft
        | none =>
            cases after with
            | success resp =>
                exact .inl (quiet_append.mpr ⟨waits, quiet_cons.mpr ⟨hs, quiet_single rfl⟩⟩)
            | terminal err' fatal =>
                exact .inl (quiet_append.mpr ⟨waits, quiet_cons.mpr ⟨hs, quiet_nil⟩⟩)
            | fallback err' soft =>
                exact .inl (quiet_append.mpr ⟨waits, quiet_cons.mpr ⟨hs, quiet_single rfl⟩⟩)
            | @retry err' tr t soft again =>
                have first : Quiet (tr₁ ++ [⟨.complete c.providerName providerReq, reply⟩,
                    ⟨.recordFailure c.providerName c.model, ()⟩]) :=
                  quiet_append.mpr ⟨waits, quiet_cons.mpr ⟨hs, quiet_single rfl⟩⟩
                have split : tr₁ ++ ⟨.complete c.providerName providerReq, reply⟩ ::
                    ⟨.recordFailure c.providerName c.model, ()⟩ :: tr =
                    (tr₁ ++ [⟨.complete c.providerName providerReq, reply⟩,
                      ⟨.recordFailure c.providerName c.model, ()⟩]) ++ tr := by
                  simp
                rw [split]
                exact (ih again).prepend first

theorem tryCandidate_statusless (shared : e.SharedTable) {attempts : List Attempt}
    {duration : Duration} {tr : Trace} {t : Tried}
    (h : Runs (e.tryCandidate c req attempts duration) tr t) :
    Settles tr fun err => t.err = some (.call err) ∧ e.classify c.providerName err = .terminal := by
  have question : ∀ allowed, Quiet [⟨.allow c.providerName c.model, allowed⟩] := fun _ =>
    quiet_single rfl
  obtain ⟨rfl, -⟩ | ⟨tr', rfl, loop⟩ := tryCandidate_cases h
  · exact .inl (question false)
  · exact (attemptLoop_statusless shared loop).prepend (question true)

/-- What follows a visit: the run goes on if it was quiet, and returns the failure if not. -/
theorem Ends.settles (shared : e.SharedTable) {visit last : Trace} {t : Tried} {p : Progress}
    {r : Except Error Result} (run : Runs (e.tryCandidate c req p.attempts p.duration) visit t)
    (h : Ends e c t last r) :
    Settles (visit ++ last) fun err => ∃ attempts, r = .error ⟨.call err, attempts⟩ := by
  rcases tryCandidate_statusless shared run with quiet | ⟨err, ends, failed, fatal⟩
  · apply Settles.prepend quiet
    cases h with
    | served done => exact .inl quiet_nil
    | terminal err failed fatal => exact .inl quiet_nil
    | cancelled err ce failed soft => exact .inl (quiet_single rfl)
  · cases h with
    | served done => cases failed.symm.trans done
    | terminal err' failed' _ =>
        cases failed.symm.trans failed'
        exact .inr ⟨err, by simpa using ends, t.attempts, rfl⟩
    | cancelled err' ce failed' soft =>
        cases failed.symm.trans failed'
        exact absurd fatal soft

theorem Resumes.quiet (shared : e.SharedTable) {visit next : Trace} {t : Tried} {p p' : Progress}
    (run : Runs (e.tryCandidate c req p.attempts p.duration) visit t) (h : Resumes e c p t next p') :
    Quiet (visit ++ next) := by
  have after : Quiet next := by
    cases h with
    | rejected refused => exact quiet_nil
    | reselect err failed soft => exact quiet_single rfl
  rcases tryCandidate_statusless shared run with quiet | ⟨err, ends, failed, fatal⟩
  · exact quiet_append.mpr ⟨quiet, after⟩
  · cases h with
    | rejected refused => cases failed.symm.trans refused
    | reselect err' failed' soft =>
        cases failed.symm.trans failed'
        exact absurd fatal soft

theorem executesTier_statusless (shared : e.SharedTable) {p : Progress} {tr : Trace}
    {out : TierEnd (Except Error Result)} (h : e.ExecutesTier req tier tried p tr out) :
    Settles tr fun err => ∃ attempts, out = .returned (.error ⟨.call err, attempts⟩) := by
  induction h with
  | left pick => exact .inl (quiet_of_polls (pickFromTier_polls pick))
  | ended pick run ends =>
      apply Settles.prepend (quiet_of_polls (pickFromTier_polls pick))
      exact (ends.settles shared run).mono fun err => Exists.imp fun _ => congrArg TierEnd.returned
  | resumed pick run resumes later ih =>
      apply Settles.prepend (quiet_of_polls (pickFromTier_polls pick))
      rw [← List.append_assoc]
      exact ih.prepend (resumes.quiet shared run)

theorem executes_statusless (shared : e.SharedTable) {tiers : List Tier} {p : Progress}
    {tr : Trace} {out : Except Error Result} (h : e.Executes req tiers p tr out) :
    Settles tr fun err => ∃ attempts, out = .error ⟨.call err, attempts⟩ := by
  induction h with
  | exhausted p => exact .inl quiet_nil
  | returned rounds =>
      refine (executesTier_statusless shared rounds).mono fun err => Exists.imp fun _ same => ?_
      cases same
      rfl
  | advanced rounds later ih =>
      rcases executesTier_statusless shared rounds with quiet | ⟨err, -, attempts, absurd⟩
      · exact ih.prepend quiet
      · cases absurd

theorem executeFrom_statusless (shared : e.SharedTable) {tiers : List Tier} {p : Progress}
    {tr : Trace} {r : Option (Except Error Result)} (h : Runs (e.executeFrom req tiers p) tr r) :
    Settles tr fun err => ∃ attempts, r = some (.error ⟨.call err, attempts⟩) := by
  obtain ⟨out, rfl, executes⟩ := executeFrom_rounds h
  exact (executes_statusless shared executes).mono fun err => Exists.imp fun _ => congrArg some

/-- The callback of the handler fails with what writing to the client failed with, which
is never a provider's APIError. -/
def ClientErrors (tr : Trace) : Prop :=
  ∀ ev ∈ tr, ∀ failure, refusal ev = some failure → failure.asAPIError = none

theorem ClientErrors.of_subset {tr tr' : Trace} (h : ClientErrors tr) (sub : tr' ⊆ tr) :
    ClientErrors tr' := fun ev member => h ev (sub member)

theorem ClientErrors.of_append {tr₁ tr₂ : Trace} (h : ClientErrors (tr₁ ++ tr₂)) :
    ClientErrors tr₁ ∧ ClientErrors tr₂ :=
  ⟨h.of_subset (List.subset_append_left _ _), h.of_subset (List.subset_append_right _ _)⟩

/-- The relay makes callbacks only, and relaying a contentless call that failed without a
status it leaves the stream unflushed with some failure without a status. -/
theorem relayDeltas_statusless {name model : String} {own : Option CallError} {ds : List Delta}
    {usage : Option Usage} {flushed : Bool} {tr : Trace} {out : Relayed}
    (h : Runs (relayDeltas name model own ds usage flushed) tr out) :
    (∀ ev ∈ tr, ev.1.isCallback = true) ∧ (ClientErrors tr → ∀ err, own = some err →
      err.asAPIError = none → ds.all (fun d => d.content == "") = true →
      out.flushed = flushed ∧ ∃ failure, out.err = some failure ∧ failure.asAPIError = none) := by
  induction ds generalizing usage flushed tr with
  | nil =>
      obtain ⟨rfl, rfl⟩ := runs_pure.mp h
      exact ⟨by simp, fun _ err same status _ => ⟨rfl, err, same, status⟩⟩
  | cons d ds ih =>
      obtain ⟨refused, tr', rfl, rest⟩ := runs_perform_bind.mp h
      cases refused with
      | some failure =>
          obtain ⟨rfl, rfl⟩ := runs_pure.mp rest
          refine ⟨by simp [Op.isCallback], ?_⟩
          intro client _ _ _ _
          exact ⟨rfl, failure, rfl, client _ List.mem_cons_self failure rfl⟩
      | none =>
          obtain ⟨only, clean⟩ := ih rest
          constructor
          · intro ev member
            rcases List.mem_cons.mp member with rfl | later
            · rfl
            · exact only ev later
          · intro client err same status empty
            rw [List.all_cons, Bool.and_eq_true] at empty
            have here : d.content = "" := by simpa using empty.1
            obtain ⟨unflushed, failed⟩ := clean (client.of_subset (List.subset_cons_self _ _)) err
              same status empty.2
            exact ⟨by simpa [here] using unflushed, failed⟩

theorem streamLoop_statusless (shared : e.SharedTable) {remaining attempt : Nat}
    {lastErr : Option CallError} {attempts : List Attempt} {duration : Duration} {tr : Trace}
    {t : TriedStream} (client : ClientErrors tr)
    (h : Runs (e.streamLoop c providerReq remaining attempt lastErr false attempts duration) tr t) :
    Settles tr fun _ => t.flushed = false ∧ ∃ failure, t.err = some (.call failure) ∧
      e.classify c.providerName failure = .terminal := by
  induction remaining generalizing attempt lastErr attempts duration tr with
  | zero =>
      obtain ⟨rfl, -⟩ := runs_pure.mp h
      exact .inl quiet_nil
  | succ remaining ih =>
      obtain ⟨go, tr₁, tr₂, rfl, wait, ⟨-, rfl, -⟩ |
        ⟨-, reply, relayed, tr₃, tr₄, rfl, relay, after⟩⟩ := streamLoop_succ h
      · exact .inl (by simpa using quiet_of_waits (waitBefore_waits wait))
      · apply Settles.prepend (quiet_of_waits (waitBefore_waits wait))
        have only : ∀ ev ∈ tr₃, ev.1.isCallback = true := (relayDeltas_statusless relay).1
        have callbacks : Quiet tr₃ := fun ev member => (statusless_callback (only ev member)).1
        have record : ∀ name model, Quiet [⟨.recordFailure name model, ()⟩] := fun _ _ =>
          quiet_single rfl
        simp only [Bool.false_or] at after
        cases hs : statuslessFailure ⟨.stream c.providerName providerReq, reply⟩ with
        | some err =>
            have empty : reply.deltas.all (fun d => d.content == "") = true := by
              by_contra full
              simp [statuslessFailure, full] at hs
            obtain ⟨same, status⟩ := statuslessError_eq_some.mp
              (by simpa [statuslessFailure, empty] using hs : statuslessError reply.err = some err)
            obtain ⟨unflushed, failure, passed, status'⟩ := (relayDeltas_statusless relay).2
              (client.of_subset (by intro ev member; simp [member])) err same status empty
            rw [passed, unflushed] at after
            have fatal := classify_statusless shared c.providerName status'
            cases after with
            | broken err committed => cases committed
            | terminal _ _ _ =>
                exact .inr ⟨err, ⟨[], _, tr₃, by simp, quiet_nil, hs, only⟩, rfl, failure, rfl, fatal⟩
            | fallback err _ soft => rw [fatal] at soft; cases soft
            | retry err _ soft again => rw [fatal] at soft; cases soft
        | none =>
            have first : Quiet (⟨.stream c.providerName providerReq, reply⟩ :: tr₃) :=
              quiet_cons.mpr ⟨hs, callbacks⟩
            generalize hr : relayed.err = failure at after
            generalize hf : relayed.flushed = reached at after
            refine Settles.prepend first ?_
            cases after with
            | success => exact .inl (quiet_single rfl)
            | broken err _ => exact .inl quiet_nil
            | terminal err _ _ => exact .inl quiet_nil
            | fallback err _ _ => exact .inl (record _ _)
            | @retry err tr t unflushed soft again =>
                subst unflushed
                apply Settles.prepend (record _ _)
                refine ih (client.of_subset ?_) again
                intro ev member
                simp [member]

theorem tryCandidateStream_statusless (shared : e.SharedTable) {attempts : List Attempt}
    {duration : Duration} {tr : Trace} {t : TriedStream} (client : ClientErrors tr)
    (h : Runs (e.tryCandidateStream c req attempts duration) tr t) :
    Settles tr fun _ => t.flushed = false ∧ ∃ failure, t.err = some (.call failure) ∧
      e.classify c.providerName failure = .terminal := by
  have question : ∀ allowed, Quiet [⟨.allow c.providerName c.model, allowed⟩] := fun _ =>
    quiet_single rfl
  obtain ⟨rfl, -⟩ | ⟨tr', rfl, loop⟩ := tryCandidateStream_cases h
  · exact .inl (question false)
  · have rest := client.of_subset (List.subset_cons_self _ _)
    exact (streamLoop_statusless shared rest loop).prepend (question true)

theorem EndsStream.settles (shared : e.SharedTable) {visit last : Trace} {t : TriedStream}
    {p : Progress} {r : Except StreamError StreamResult} (client : ClientErrors visit)
    (run : Runs (e.tryCandidateStream c req p.attempts p.duration) visit t)
    (h : EndsStream e c t last r) :
    Settles (visit ++ last) fun _ => ∃ failure attempts, r = .error ⟨.call failure, attempts, false⟩ := by
  rcases tryCandidateStream_statusless shared client run with
    quiet | ⟨err, ends, unflushed, failure, failed, fatal⟩
  · apply Settles.prepend quiet
    cases h with
    | served done => exact .inl quiet_nil
    | broken err failed _ => exact .inl quiet_nil
    | terminal err failed _ fatal => exact .inl quiet_nil
    | cancelled err ce failed _ soft => exact .inl (quiet_single rfl)
  · cases h with
    | served done => cases failed.symm.trans done
    | broken err' failed' committed => cases unflushed.symm.trans committed
    | terminal err' failed' _ _ =>
        cases failed.symm.trans failed'
        exact .inr ⟨err, by simpa using ends, failure, t.attempts, rfl⟩
    | cancelled err' ce failed' _ soft =>
        cases failed.symm.trans failed'
        exact absurd fatal soft

theorem ResumesStream.quiet (shared : e.SharedTable) {visit next : Trace} {t : TriedStream}
    {p p' : Progress} (client : ClientErrors visit)
    (run : Runs (e.tryCandidateStream c req p.attempts p.duration) visit t)
    (h : ResumesStream e c p t next p') : Quiet (visit ++ next) := by
  have after : Quiet next := by
    cases h with
    | rejected refused => exact quiet_nil
    | reselect err failed _ soft => exact quiet_single rfl
  rcases tryCandidateStream_statusless shared client run with
    quiet | ⟨err, ends, unflushed, failure, failed, fatal⟩
  · exact quiet_append.mpr ⟨quiet, after⟩
  · cases h with
    | rejected refused => cases failed.symm.trans refused
    | reselect err' failed' _ soft =>
        cases failed.symm.trans failed'
        exact absurd fatal soft

theorem streamsTier_statusless (shared : e.SharedTable) {p : Progress} {tr : Trace}
    {out : TierEnd (Except StreamError StreamResult)} (client : ClientErrors tr)
    (h : e.StreamsTier req tier tried p tr out) :
    Settles tr fun _ => ∃ failure attempts,
      out = .returned (.error ⟨.call failure, attempts, false⟩) := by
  induction h with
  | left pick => exact .inl (quiet_of_polls (pickFromTier_polls pick))
  | ended pick run ends =>
      have visited := client.of_append.2.of_append.1
      apply Settles.prepend (quiet_of_polls (pickFromTier_polls pick))
      refine (ends.settles shared visited run).mono fun err => Exists.imp fun _ => Exists.imp fun _ => ?_
      exact congrArg TierEnd.returned
  | resumed pick run resumes later ih =>
      obtain ⟨visited, rest⟩ := client.of_append.2.of_append
      apply Settles.prepend (quiet_of_polls (pickFromTier_polls pick))
      rw [← List.append_assoc]
      exact (ih rest.of_append.2).prepend (resumes.quiet shared visited run)

theorem streams_statusless (shared : e.SharedTable) {tiers : List Tier} {p : Progress}
    {tr : Trace} {out : Except StreamError StreamResult} (client : ClientErrors tr)
    (h : e.Streams req tiers p tr out) :
    Settles tr fun _ => ∃ failure attempts, out = .error ⟨.call failure, attempts, false⟩ := by
  induction h with
  | exhausted p => exact .inl quiet_nil
  | returned rounds =>
      refine (streamsTier_statusless shared client rounds).mono fun err =>
        Exists.imp fun _ => Exists.imp fun _ same => ?_
      cases same
      rfl
  | advanced rounds later ih =>
      obtain ⟨early, rest⟩ := client.of_append
      rcases streamsTier_statusless shared early rounds with quiet | ⟨err, -, failure, attempts, absurd⟩
      · exact (ih rest).prepend quiet
      · cases absurd

theorem executeStreamFrom_statusless (shared : e.SharedTable) {tiers : List Tier} {p : Progress}
    {tr : Trace} {r : Option (Except StreamError StreamResult)}
    (client : ClientErrors tr) (h : Runs (e.executeStreamFrom req tiers p) tr r) :
    Settles tr fun _ => ∃ failure attempts,
      r = some (.error ⟨.call failure, attempts, false⟩) := by
  obtain ⟨out, rfl, streams⟩ := executeStreamFrom_rounds h
  refine (streams_statusless shared client streams).mono fun err =>
    Exists.imp fun _ => Exists.imp fun _ => ?_
  exact congrArg some

/-- Under the shared table no statusless failure is ever failed over: whatever candidates
remain, no breaker is asked and no provider is called after it, and the run returns it. -/
theorem statusless_never_fails_over (shared : e.SharedTable) (tiers : List Tier)
    (req : CanonicalRequest) :
    (∀ tr r, Runs (e.execute tiers req) tr r → ∀ before ev after err,
      tr = before ++ ev :: after → statuslessFailure ev = some err →
        (∀ next ∈ after, next.1.isTry = false) ∧
          ∃ attempts, r = some (.error ⟨.call err, attempts⟩)) ∧
    (∀ tr r, Runs (e.executeStream tiers req) tr r → ClientErrors tr → ∀ before ev after err,
      tr = before ++ ev :: after → statuslessFailure ev = some err →
        (∀ next ∈ after, next.1.isTry = false) ∧
          ∃ failure attempts, r = some (.error ⟨.call failure, attempts, false⟩)) := by
  constructor
  · intro tr r h before ev after err split failed
    exact (executeFrom_statusless shared h).at_failure split failed
  · intro tr r h client before ev after err split failed
    exact (executeStreamFrom_statusless shared client h).at_failure split failed

theorem refused_dial_stops_both :
    let tiers : List Tier := [⟨[⟨"primary", "m", 1⟩]⟩, ⟨[⟨"backup", "m", 1⟩]⟩]
    let req : CanonicalRequest := { model := "m", messages := [] }
    let dial : CallError := .other "dial tcp 10.0.0.1:443: connect: connection refused"
    let world := calm (fun _ => ⟨.error dial, 0⟩) fun _ => ⟨[], some dial, 0⟩
    let run := exec world ((Engine.uniform ⟨2, 0, 0⟩).execute tiers req) []
    let stream := exec world ((Engine.uniform ⟨2, 0, 0⟩).executeStream tiers req) []
    (∃ attempts, run.2 = some (.error ⟨.call dial, attempts⟩)) ∧
      ∃ failure attempts, stream.2 = some (.error ⟨.call failure, attempts, false⟩) := by
  intro tiers req dial world run stream
  have shared : (Engine.uniform ⟨2, 0, 0⟩).SharedTable := by
    intro name p wired err status
    cases wired
    rfl
  have both := statusless_never_fails_over shared tiers req
  constructor
  · exact (both.1 run.1 run.2 (exec_runs _ _ _) (run.1.take 3)
      ⟨.complete "primary" req, ⟨.error dial, 0⟩⟩ [] dial rfl rfl).2
  · refine (both.2 stream.1 stream.2 (exec_runs _ _ _) ?_ (stream.1.take 3)
      ⟨.stream "primary" req, ⟨[], some dial, 0⟩⟩ [] dial rfl rfl).2
    intro ev member failure refused
    have accepted : stream.1.all (fun ev => (refusal ev).isNone) = true := rfl
    have none := List.all_eq_true.mp accepted ev member
    rw [refused] at none
    cases none

/-- A refused dial at the primary with a healthy backup in the next tier: the backup's
breaker is never even asked. -/
theorem refused_dial_skips_backup :
    let backup : Candidate := ⟨"backup", "m", 1⟩
    let tiers : List Tier := [⟨[⟨"primary", "m", 1⟩]⟩, ⟨[backup]⟩]
    let req : CanonicalRequest := { model := "m", messages := [] }
    let dial : CallError := .other "dial tcp 10.0.0.1:443: connect: connection refused"
    let world := calm (fun name => if name = "primary" then ⟨.error dial, 0⟩
      else ⟨.ok ⟨"id", "chat.completion", 0, "m", [], ⟨1, 1, 2⟩⟩, 0⟩) fun _ => ⟨[], none, 0⟩
    let engine := Engine.uniform ⟨2, 0, 0⟩
    let run := exec world (engine.execute tiers req) []
    engine.wired backup = true ∧ 0 < backup.weight ∧
      world run.1 (.ready "backup" "m") = true ∧ world run.1 .ctxErr = none ∧
      Runs (engine.execute tiers req) run.1 run.2 ∧
      run.1 = [⟨.ready "primary" "m", true⟩, ⟨.intn 1, (0 : Below 1)⟩,
        ⟨.allow "primary" "m", true⟩, ⟨.complete "primary" req, ⟨.error dial, 0⟩⟩] ∧
      run.2 = some (.error ⟨.call dial, [⟨"primary", 0⟩]⟩) :=
  ⟨rfl, by decide, rfl, rfl, exec_runs _ _ _, rfl, rfl⟩

end Engine
end Gateway.Retry
