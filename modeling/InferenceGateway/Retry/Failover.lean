import InferenceGateway.Retry.Rounds

/-! The failover log. A run of Execute is read back as one log per tier it entered:
the readiness polls, the candidate each poll led to, what its breaker and its provider
replied, and the poll on which the tier was left. -/
namespace Gateway.Retry
open Gateway.Providers Interaction Interaction.Program

def Op.isObserved : Op → Bool
  | .ready _ _ | .allow _ _ | .complete _ _ => true
  | _ => false

/-- The questions to breakers and the provider calls of a trace, in order. -/
def observe (tr : Trace) : Trace := tr.filter fun ev => ev.1.isObserved

def CompleteReply.status (reply : CompleteReply) : Int :=
  match reply.result with
  | .ok _ => 200
  | .error err => err.status

def callAttempt : Event Op Op.Reply → Option Attempt
  | ⟨.complete name _, reply⟩ => some ⟨name, CompleteReply.status reply⟩
  | _ => none

/-- The provider calls of a trace with their statuses, in order. -/
def calls (tr : Trace) : List Attempt := tr.filterMap callAttempt

/-- One pick: the poll it was made from, Allow's answer and the calls that followed. -/
structure Visit where
  poll : Poll
  candidate : Candidate
  admitted : Bool
  replies : List CompleteReply

def Visit.completions (req : CanonicalRequest) (v : Visit) : Trace :=
  v.replies.map fun reply =>
    ⟨.complete v.candidate.providerName { req with model := v.candidate.model }, reply⟩

def Visit.trace (req : CanonicalRequest) (v : Visit) : Trace :=
  v.poll.trace ++
    ⟨.allow v.candidate.providerName v.candidate.model, v.admitted⟩ ::
      v.completions req

/-- `left` is the poll on which the tier was given up, if it was. -/
structure TierLog where
  tier : Tier
  visits : List Visit
  left : Option Poll

def visitsTrace (req : CanonicalRequest) (visits : List Visit) (left : Option Poll) : Trace :=
  visits.flatMap (Visit.trace req) ++ Poll.trace (left.getD [])

def TierLog.trace (req : CanonicalRequest) (log : TierLog) : Trace :=
  visitsTrace req log.visits log.left

namespace Engine

/-- A Terminal failure, or a context found done. -/
def stops (e : Engine) : Event Op Op.Reply → Bool
  | ⟨.complete name _, reply⟩ =>
      match CompleteReply.result reply with
      | .error err => decide (e.classify name err = .terminal)
      | .ok _ => false
  | ⟨.ctxErr, some _⟩ => true
  | _ => false

def stopped (e : Engine) (tr : Trace) : Bool := tr.any e.stops

/-- The picks of one tier, from a given tried set on. -/
inductive Walk (e : Engine) (tier : Tier) : List String → List Visit → Option Poll → Prop
  | returned (tried : List String) : Walk e tier tried [] none
  | left {tried : List String} {poll : Poll} : poll.map Prod.fst = e.polled tried tier.candidates →
      poll.ready = [] ∨ weightFrom 0 poll.ready ≤ 0 → Walk e tier tried [] (some poll)
  | visit {tried : List String} {v : Visit} {visits : List Visit} {left : Option Poll} :
      v.poll.map Prod.fst = e.polled tried tier.candidates → v.candidate ∈ v.poll.ready →
      (v.admitted = false → v.replies = []) →
      v.replies.length ≤ e.cfg.maxAttemptsPerProvider.toInt.toNat →
      Walk e tier (v.candidate.providerName :: tried) visits left →
      Walk e tier tried (v :: visits) left

end Engine

theorem observe_append (tr₁ tr₂ : Trace) : observe (tr₁ ++ tr₂) = observe tr₁ ++ observe tr₂ :=
  List.filter_append tr₁ tr₂

theorem calls_append (tr₁ tr₂ : Trace) : calls (tr₁ ++ tr₂) = calls tr₁ ++ calls tr₂ :=
  List.filterMap_append

theorem observe_waits {tr : Trace} (h : ∀ ev ∈ tr, ev.1.isWait = true) : observe tr = [] := by
  apply List.filter_eq_nil_iff.mpr
  rintro ⟨op, reply⟩ member
  have wait := h _ member
  cases op <;> first | exact Bool.false_ne_true | cases wait

theorem observe_nil : observe [] = [] := rfl

theorem observe_ctxErr (r : Option CtxError) : observe [⟨.ctxErr, r⟩] = [] := rfl

/-- Calls are observed, so what an observer cannot see contains none. -/
theorem calls_observe (tr : Trace) : calls (observe tr) = calls tr := by
  unfold calls observe
  rw [List.filterMap_filter]
  congr 1
  funext ev
  rcases ev with ⟨op, reply⟩
  cases op <;> rfl

theorem observe_poll (poll : Poll) : observe poll.trace = poll.trace := by
  apply List.filter_eq_self.mpr
  intro ev member
  obtain ⟨q, -, rfl⟩ := List.mem_map.mp member
  rfl

theorem calls_poll (poll : Poll) : calls poll.trace = [] := by
  apply List.filterMap_eq_nil_iff.mpr
  intro ev member
  obtain ⟨q, -, rfl⟩ := List.mem_map.mp member
  rfl

/-- Past a silent start, a call is the first thing observed. -/
theorem observe_call {before : Trace} (quiet : observe before = []) {name : String} {req : CanonicalRequest}
    {reply : CompleteReply} (tail : Trace) :
    observe (before ++ ⟨.complete name req, reply⟩ :: tail) =
      ⟨.complete name req, reply⟩ :: observe tail := by
  rw [observe_append, quiet]
  rfl

theorem calls_call {before : Trace} (quiet : observe before = []) {name : String} {req : CanonicalRequest}
    {reply : CompleteReply} (tail : Trace) :
    calls (before ++ ⟨.complete name req, reply⟩ :: tail) = ⟨name, reply.status⟩ :: calls tail := by
  rw [← calls_observe, observe_call quiet, ← calls_observe tail]
  rfl

namespace Engine
variable {e : Engine} {tier : Tier} {tried : List String} {req providerReq : CanonicalRequest}
  {c : Candidate}

theorem stopped_append (tr₁ tr₂ : Trace) :
    e.stopped (tr₁ ++ tr₂) = (e.stopped tr₁ || e.stopped tr₂) := List.any_append

/-- What the attempt loop says about its own calls. -/
structure LoopLog (e : Engine) (c : Candidate) (providerReq : CanonicalRequest) (budget : Nat)
    (attempts : List Attempt) (lastErr : Option CallError) (tr : Trace) (t : Tried) : Prop where
  observed : ∃ replies : List CompleteReply, replies.length ≤ budget ∧
    observe tr = replies.map fun reply => ⟨.complete c.providerName providerReq, reply⟩
  attempts : t.attempts = attempts ++ calls tr
  rejected : t.err ≠ some .breakerRejected
  success : t.err = none → (lastErr = none ∧ budget = 0) ∨
    (calls tr).getLast? = some ⟨c.providerName, 200⟩
  failure : ∀ err, t.err = some (.call err) → (lastErr = some err ∨ calls tr ≠ []) ∧
    (e.classify c.providerName err = .terminal → e.stopped tr = true)

section LoopLog
variable {budget : Nat} {attempts : List Attempt} {lastErr : Option CallError} {duration : Duration}
  {waited tail : Trace} {reply : CompleteReply} {err : CallError}

/-- A loop that ends with the error it came with. -/
theorem LoopLog.idle (quiet : observe waited = []) (spent : lastErr = none → budget = 0)
    (soft : ∀ err, lastErr = some err → e.classify c.providerName err = .retryable) :
    LoopLog e c providerReq budget attempts lastErr waited
      { err := lastErr.map .call, attempts, duration } where
  observed := ⟨[], Nat.zero_le _, quiet⟩
  attempts := by
    rw [← calls_observe, quiet]
    exact (List.append_nil _).symm
  rejected := by simp
  success := by
    intro noErr
    have none := Option.map_eq_none_iff.mp noErr
    exact .inl ⟨none, spent none⟩
  failure := by
    intro err failed
    have same : lastErr = some err := by simpa using failed
    refine ⟨.inl same, ?_⟩
    intro terminal
    rw [soft err same] at terminal
    cases terminal

/-- A loop whose call is answered. -/
theorem LoopLog.succeeds {resp : CanonicalResponse} (quiet : observe waited = [])
    (answer : reply.result = .ok resp) (silent : observe tail = []) :
    LoopLog e c providerReq (budget + 1) attempts lastErr
      (waited ++ ⟨.complete c.providerName providerReq, reply⟩ :: tail)
      { resp := some resp, attempts := attempts ++ [⟨c.providerName, 200⟩], duration } where
  observed := ⟨[reply], by simp, by rw [observe_call quiet, silent]; rfl⟩
  attempts := by
    rw [calls_call quiet, ← calls_observe tail, silent, CompleteReply.status, answer]
    rfl
  rejected := by simp
  success := by
    intro _
    right
    rw [calls_call quiet, ← calls_observe tail, silent, CompleteReply.status, answer]
    rfl
  failure := by
    intro err failed
    cases failed

/-- A loop whose call fails, and is not repeated. -/
theorem LoopLog.fails (quiet : observe waited = []) (answer : reply.result = .error err)
    (silent : observe tail = []) :
    LoopLog e c providerReq (budget + 1) attempts lastErr
      (waited ++ ⟨.complete c.providerName providerReq, reply⟩ :: tail)
      { err := some (.call err), attempts := attempts ++ [⟨c.providerName, err.status⟩], duration } where
  observed := ⟨[reply], by simp, by rw [observe_call quiet, silent]; rfl⟩
  attempts := by
    rw [calls_call quiet, ← calls_observe tail, silent, CompleteReply.status, answer]
    rfl
  rejected := by simp
  success := by
    intro none
    cases none
  failure := by
    intro err' same
    cases same
    refine ⟨.inr (by rw [calls_call quiet]; simp), ?_⟩
    intro fatal
    simp [Engine.stopped, stops, answer, fatal]

/-- A loop whose call fails, and goes on. -/
theorem LoopLog.retries {t : Tried} (quiet : observe waited = []) (answer : reply.result = .error err)
    (rest : LoopLog e c providerReq budget (attempts ++ [⟨c.providerName, err.status⟩]) (some err) tail t) :
    LoopLog e c providerReq (budget + 1) attempts lastErr
      (waited ++ ⟨.complete c.providerName providerReq, reply⟩ ::
        ⟨.recordFailure c.providerName c.model, ()⟩ :: tail) t where
  observed := by
    obtain ⟨replies, few, same⟩ := rest.observed
    refine ⟨reply :: replies, by simpa using few, ?_⟩
    rw [observe_call quiet, List.map_cons, ← same]
    rfl
  attempts := by
    rw [calls_call quiet, rest.attempts, List.append_assoc, CompleteReply.status, answer]
    rfl
  rejected := rest.rejected
  success := by
    intro ok
    right
    rcases rest.success ok with ⟨absurd, -⟩ | last
    · cases absurd
    · have silent : calls (⟨.recordFailure c.providerName c.model, ()⟩ :: tail) = calls tail := rfl
      rw [calls_call quiet, silent, List.getLast?_cons, last]
      rfl
  failure := by
    intro err' failed
    refine ⟨.inr (by rw [calls_call quiet]; simp), ?_⟩
    intro terminal
    have later := (rest.failure err' failed).2 terminal
    rw [stopped_append]
    simp only [Engine.stopped, List.any_cons] at later ⊢
    simp [later]

end LoopLog

theorem attemptLoop_log {remaining attempt : Nat} {lastErr : Option CallError}
    {attempts : List Attempt} {duration : Duration} {tr : Trace} {t : Tried}
    (entered : lastErr = none → attempt = 0)
    (soft : ∀ err, lastErr = some err → e.classify c.providerName err = .retryable)
    (h : Runs (e.attemptLoop c providerReq remaining attempt lastErr attempts duration) tr t) :
    LoopLog e c providerReq remaining attempts lastErr tr t := by
  induction remaining generalizing attempt lastErr attempts duration tr with
  | zero =>
      obtain ⟨rfl, rfl⟩ := runs_pure.mp h
      exact .idle rfl (fun _ => rfl) soft
  | succ remaining ih =>
      obtain ⟨go, waited, tr₂, rfl, wait, stopped | called⟩ := attemptLoop_succ h
      · obtain ⟨rfl, rfl, rfl⟩ := stopped
        rw [List.append_nil]
        refine .idle (observe_waits (waitBefore_waits wait)) ?_ soft
        -- The first attempt is not preceded by a wait that could be cut short.
        intro none
        obtain rfl := entered none
        exact absurd (waitBefore_first wait).2 (by decide)
      · obtain ⟨-, reply, tr₃, rfl, after⟩ := called
        have quiet := observe_waits (waitBefore_waits wait)
        generalize answer : reply.result = result at after
        cases after with
        | success resp => exact .succeeds quiet answer rfl
        | terminal err fatal => exact .fails quiet answer rfl
        | fallback err soft' => exact .fails quiet answer rfl
        | @retry err tr t retryable again =>
            have later : ∀ err', some err = some err' → e.classify c.providerName err' = .retryable := by
              intro err' same
              cases same
              exact retryable
            exact .retries quiet answer (ih (by simp) later again)

/-- What one tier hands on when it is given up: the calls are appended to the attempts
and the error stays ErrNoHealthyProvider exactly as long as there were none. -/
structure Carried (p : Progress) (tr : Trace) (p' : Progress) : Prop where
  attempts : p'.attempts = p.attempts ++ calls tr
  lastErr : p'.lastErr = .noHealthyProvider ↔ p.lastErr = .noHealthyProvider ∧ calls tr = []

/-- What one tier returns when it ends the run. -/
inductive Finished (e : Engine) (p : Progress) (tr : Trace) : Except Error Result → Prop
  | ok {res : Result} : res.attempts = p.attempts ++ calls tr →
      (calls tr).getLast? = some ⟨res.provider, 200⟩ → Finished e p tr (.ok res)
  | error {failure : Error} : failure.attempts = p.attempts ++ calls tr → calls tr ≠ [] →
      failure.err ≠ .noHealthyProvider → e.stopped tr = true → Finished e p tr (.error failure)

theorem Carried.trans {p p' p'' : Progress} {tr₁ tr₂ : Trace} (first : Carried p tr₁ p')
    (second : Carried p' tr₂ p'') : Carried p (tr₁ ++ tr₂) p'' where
  attempts := by rw [second.attempts, first.attempts, calls_append, List.append_assoc]
  lastErr := by rw [second.lastErr, first.lastErr, calls_append, List.append_eq_nil_iff, and_assoc]

theorem Carried.finish {p p' : Progress} {tr₁ tr₂ : Trace} {r : Except Error Result}
    (first : Carried p tr₁ p') (second : Finished e p' tr₂ r) : Finished e p (tr₁ ++ tr₂) r := by
  cases second with
  | ok attempts last =>
      refine .ok ?_ ?_
      · rw [attempts, first.attempts, calls_append, List.append_assoc]
      · rw [calls_append, List.getLast?_append, last]
        rfl
  | error attempts called cause stop =>
      refine .error ?_ ?_ cause ?_
      · rw [attempts, first.attempts, calls_append, List.append_assoc]
      · rw [calls_append]
        exact List.append_ne_nil_of_right_ne_nil _ called
      · rw [stopped_append, stop, Bool.or_true]

/-- One visit: what its breaker and provider were asked, and how the answer reflects it. -/
theorem tryCandidate_log (budget : 0 < e.cfg.maxAttemptsPerProvider.toInt.toNat)
    {attempts : List Attempt} {duration : Duration} {tr : Trace} {t : Tried}
    (h : Runs (e.tryCandidate c req attempts duration) tr t) :
    ∃ admitted replies, (admitted = false → replies = []) ∧
      replies.length ≤ e.cfg.maxAttemptsPerProvider.toInt.toNat ∧
      observe tr = ⟨.allow c.providerName c.model, admitted⟩ ::
        replies.map (fun reply => ⟨.complete c.providerName { req with model := c.model }, reply⟩) ∧
      t.attempts = attempts ++ calls tr ∧
      (t.err = some .breakerRejected → calls tr = []) ∧
      (t.err = none → (calls tr).getLast? = some ⟨c.providerName, 200⟩) ∧
      (∀ err, t.err = some (.call err) → calls tr ≠ [] ∧
        (e.classify c.providerName err = .terminal → e.stopped tr = true)) := by
  obtain ⟨rfl, rfl⟩ | ⟨tr', rfl, loop⟩ := tryCandidate_cases h
  · exact ⟨false, [], fun _ => rfl, Nat.zero_le _, rfl, by simp [calls, callAttempt], fun _ => rfl,
      nofun, nofun⟩
  · have log := attemptLoop_log (fun _ => rfl) (fun _ some => by cases some) loop
    obtain ⟨replies, few, same⟩ := log.observed
    refine ⟨true, replies, nofun, few, ?_, log.attempts, ?_, ?_, ?_⟩
    · rw [← same]
      rfl
    · intro rejected
      exact absurd rejected log.rejected
    · intro none
      rcases log.success none with ⟨-, zero⟩ | last
      · omega
      · exact last
    · intro err failed
      obtain ⟨called, terminal⟩ := log.failure err failed
      rcases called with absurd | called
      · cases absurd
      · exact ⟨called, terminal⟩

theorem pickFromTier_none_log {tr : Trace} (h : Runs (e.pickFromTier tier tried) tr none) :
    ∃ poll : Poll, Walk e tier tried [] (some poll) ∧ tr = poll.trace := by
  obtain ⟨poll, asked, ⟨-, light, rfl⟩ | ⟨last, -, -, pick, absurd, -⟩⟩ := runs_pickFromTier.mp h
  · exact ⟨poll, .left asked light, rfl⟩
  · cases absurd

theorem pickFromTier_some_log {tr : Trace} (h : Runs (e.pickFromTier tier tried) tr (some c)) :
    ∃ poll : Poll, poll.map Prod.fst = e.polled tried tier.candidates ∧ c ∈ poll.ready ∧
      observe tr = poll.trace ∧ calls tr = [] := by
  obtain ⟨poll, asked, ⟨absurd, -⟩ | ⟨last, hl, -, pick, same, rfl⟩⟩ := runs_pickFromTier.mp h
  · cases absurd
  · refine ⟨poll, asked, ?_, ?_, ?_⟩
    · rw [Option.some.inj same]
      exact scanWeights_mem (List.mem_of_getLast? hl) _
    · rw [observe_append, observe_poll]
      exact List.append_nil _
    · rw [calls_append, calls_poll]
      rfl

theorem Carried.of_uncalled {p : Progress} {tr : Trace} (uncalled : calls tr = []) :
    Carried p tr p where
  attempts := by rw [uncalled, List.append_nil]
  lastErr := by simp [uncalled]

/-- One round: the visit it adds to the walk of the tier. -/
theorem round_log (budget : 0 < e.cfg.maxAttemptsPerProvider.toInt.toNat) {p : Progress}
    {polls visit : Trace} {t : Tried} (pick : Runs (e.pickFromTier tier tried) polls (some c))
    (run : Runs (e.tryCandidate c req p.attempts p.duration) visit t) :
    ∃ v : Visit, (∀ tail, observe (polls ++ (visit ++ tail)) = v.trace req ++ observe tail) ∧
      ∀ visits left, Walk e tier (c.providerName :: tried) visits left →
        Walk e tier tried (v :: visits) left := by
  obtain ⟨poll, asked, up, seen, -⟩ := pickFromTier_some_log pick
  obtain ⟨admitted, replies, refused, few, seen', -⟩ := tryCandidate_log budget run
  refine ⟨⟨poll, c, admitted, replies⟩, fun tail => ?_, fun _ _ walk => .visit asked up refused few walk⟩
  rw [observe_append, observe_append, seen, seen', Visit.trace, List.append_assoc]
  rfl

theorem Ends.finished (budget : 0 < e.cfg.maxAttemptsPerProvider.toInt.toNat) {p : Progress}
    {visit last : Trace} {t : Tried} {r : Except Error Result}
    (run : Runs (e.tryCandidate c req p.attempts p.duration) visit t) (h : Ends e c t last r) :
    Finished e p (visit ++ last) r := by
  obtain ⟨-, -, -, -, -, attempts, -, success, failure⟩ := tryCandidate_log budget run
  cases h with
  | served done =>
      rw [List.append_nil]
      exact .ok attempts (success done)
  | terminal err failed fatal =>
      obtain ⟨called, stop⟩ := failure err failed
      rw [List.append_nil]
      exact .error attempts called (by simp) (stop fatal)
  | cancelled err ce failed soft =>
      have silent : calls [(⟨.ctxErr, some ce⟩ : Event Op Op.Reply)] = [] := rfl
      have made : calls (visit ++ [⟨.ctxErr, some ce⟩]) = calls visit := by
        rw [calls_append, silent, List.append_nil]
      refine .error ?_ ?_ (by simp) ?_
      · rw [made]
        exact attempts
      · rw [made]
        exact (failure err failed).1
      · rw [stopped_append]
        simp [stopped, stops]

theorem Resumes.carried (budget : 0 < e.cfg.maxAttemptsPerProvider.toInt.toNat) {p p' : Progress}
    {visit next : Trace} {t : Tried}
    (run : Runs (e.tryCandidate c req p.attempts p.duration) visit t) (h : Resumes e c p t next p') :
    Carried p (visit ++ next) p' ∧ observe next = [] := by
  obtain ⟨-, -, -, -, -, attempts, rejected, -, failure⟩ := tryCandidate_log budget run
  cases h with
  | rejected refused =>
      rw [List.append_nil]
      exact ⟨⟨attempts, by simp [rejected refused]⟩, observe_nil⟩
  | reselect err failed soft =>
      have silent : calls [(⟨.ctxErr, none⟩ : Event Op Op.Reply)] = [] := rfl
      have made : calls (visit ++ [⟨.ctxErr, none⟩]) = calls visit := by
        rw [calls_append, silent, List.append_nil]
      refine ⟨⟨?_, ?_⟩, observe_ctxErr none⟩
      · rw [made]
        exact attempts
      · rw [made]
        simp [(failure err failed).1]

/-- One tier: its observed trace is the rendering of a walk, and what it hands on or returns
agrees with the calls made. -/
theorem executesTier_log (budget : 0 < e.cfg.maxAttemptsPerProvider.toInt.toNat) {p : Progress}
    {tr : Trace} {out : TierEnd (Except Error Result)} (h : e.ExecutesTier req tier tried p tr out) :
    ∃ visits left, Walk e tier tried visits left ∧ observe tr = visitsTrace req visits left ∧
      ((∃ p' poll, out = .advance p' ∧ left = some poll ∧ Carried p tr p') ∨
        ∃ r, out = .returned r ∧ Finished e p tr r) := by
  induction h with
  | @left tried p tr pick =>
      obtain ⟨poll, walk, rfl⟩ := pickFromTier_none_log pick
      exact ⟨[], some poll, walk, observe_poll poll, .inl ⟨p, poll, rfl, rfl, .of_uncalled (calls_poll poll)⟩⟩
  | @ended tried p c t polls visit last r pick run ends =>
      obtain ⟨v, seen, step⟩ := round_log budget pick run
      obtain ⟨-, -, -, -, uncalled⟩ := pickFromTier_some_log pick
      have quiet : observe last = [] := by cases ends <;> rfl
      refine ⟨[v], none, step [] none (.returned _), ?_, .inr ⟨r, rfl, ?_⟩⟩
      · rw [seen, quiet]
        simp [visitsTrace, Poll.trace]
      · exact (Carried.of_uncalled uncalled).finish (ends.finished budget run)
  | @resumed tried p p' c t polls visit next rest out pick run resumes later ih =>
      obtain ⟨v, seen, step⟩ := round_log budget pick run
      obtain ⟨-, -, -, -, uncalled⟩ := pickFromTier_some_log pick
      obtain ⟨carried, quiet⟩ := resumes.carried budget run
      obtain ⟨visits, left, walk, same, ended⟩ := ih
      have whole := (Carried.of_uncalled uncalled).trans carried
      have split : polls ++ (visit ++ (next ++ rest)) = polls ++ (visit ++ next) ++ rest := by
        simp only [List.append_assoc]
      refine ⟨v :: visits, left, step visits left walk, ?_, ?_⟩
      · rw [seen, observe_append, quiet, same]
        simp [visitsTrace]
      · rw [split]
        rcases ended with ⟨p'', poll, rfl, rfl, more⟩ | ⟨r, rfl, more⟩
        · exact .inl ⟨p'', poll, rfl, rfl, whole.trans more⟩
        · exact .inr ⟨r, rfl, whole.finish more⟩

/-- The whole walk over the tiers. -/
theorem executes_log (budget : 0 < e.cfg.maxAttemptsPerProvider.toInt.toNat) {tiers : List Tier}
    {p : Progress} {tr : Trace} {out : Except Error Result} (h : e.Executes req tiers p tr out) :
    ∃ logs : List TierLog, (∀ log ∈ logs, Walk e log.tier [] log.visits log.left) ∧
      observe tr = logs.flatMap (TierLog.trace req) ∧ logs.map TierLog.tier <+: tiers ∧
      (Finished e p tr out ∨
        (logs.map TierLog.tier = tiers ∧ (∀ log ∈ logs, ∃ poll, log.left = some poll) ∧
          ∃ p', Carried p tr p' ∧ out = .error ⟨p'.lastErr, p'.attempts⟩)) := by
  induction h with
  | exhausted p =>
      exact ⟨[], by simp, rfl, List.prefix_rfl, .inr ⟨rfl, by simp, p, .of_uncalled rfl, rfl⟩⟩
  | @returned tier tiers p tr out rounds =>
      obtain ⟨visits, left, walk, seen, ⟨p', poll, absurd, -⟩ | ⟨r, same, done⟩⟩ :=
        executesTier_log budget rounds
      · cases absurd
      · cases same
        refine ⟨[⟨tier, visits, left⟩], by simpa using walk, ?_, ?_, .inl done⟩
        · rw [seen]
          simp [TierLog.trace]
        · exact (List.prefix_cons_inj tier).mpr List.nil_prefix
  | @advanced tier tiers p p' tr rest out rounds later ih =>
      obtain ⟨visits, left, walk, seen, ⟨p₁, poll, same, rfl, carried⟩ | ⟨r, absurd, -⟩⟩ :=
        executesTier_log budget rounds
      · cases same
        obtain ⟨logs, walks, seen', order, result⟩ := ih
        refine ⟨⟨tier, visits, some poll⟩ :: logs, List.forall_mem_cons.mpr ⟨walk, walks⟩, ?_,
          (List.prefix_cons_inj tier).mpr order, ?_⟩
        · rw [observe_append, seen, seen']
          rfl
        · rcases result with done | ⟨all, gone, p'', carried', rfl⟩
          · exact .inl (carried.finish done)
          · exact .inr ⟨by simp [all], List.forall_mem_cons.mpr ⟨⟨poll, rfl⟩, gone⟩, p'',
              carried.trans carried', rfl⟩
      · cases absurd

theorem executeFrom_log (budget : 0 < e.cfg.maxAttemptsPerProvider.toInt.toNat) {tiers : List Tier}
    {p : Progress} {tr : Trace} {r : Option (Except Error Result)}
    (h : Runs (e.executeFrom req tiers p) tr r) :
    ∃ logs : List TierLog, (∀ log ∈ logs, Walk e log.tier [] log.visits log.left) ∧
      observe tr = logs.flatMap (TierLog.trace req) ∧ logs.map TierLog.tier <+: tiers ∧
      ((∃ out, r = some out ∧ Finished e p tr out) ∨
        (logs.map TierLog.tier = tiers ∧ (∀ log ∈ logs, ∃ poll, log.left = some poll) ∧
          ∃ p', Carried p tr p' ∧ r = some (.error ⟨p'.lastErr, p'.attempts⟩))) := by
  obtain ⟨out, rfl, executes⟩ := executeFrom_rounds h
  obtain ⟨logs, walks, seen, order, ended⟩ := executes_log budget executes
  refine ⟨logs, walks, seen, order, ended.imp (fun done => ⟨out, rfl, done⟩) ?_⟩
  rintro ⟨all, gone, p', carried, rfl⟩
  exact ⟨all, gone, p', carried, rfl⟩

end Engine

/-- What every tier log promises about the visits of its tier. -/
structure TierLog.Valid (e : Engine) (log : TierLog) : Prop where
  once : (log.visits.map fun v => v.candidate.providerName).Nodup
  own : ∀ v ∈ log.visits, v.candidate ∈ log.tier.candidates ∧ e.wired v.candidate = true
  bounded : ∀ v ∈ log.visits, v.replies.length ≤ e.cfg.maxAttemptsPerProvider.toInt.toNat
  refused : ∀ v ∈ log.visits, v.admitted = false → v.replies = []
  asked : ∀ poll, log.left = some poll → poll.map Prod.fst =
    e.polled (log.visits.map fun v => v.candidate.providerName) log.tier.candidates

/-- Every wired candidate of positive weight was visited, or its breaker was not Ready on
the poll that gave the tier up. A visit includes the question to Allow. -/
def TierLog.Covered (e : Engine) (log : TierLog) : Prop :=
  ∃ poll, log.left = some poll ∧ ∀ c ∈ log.tier.candidates, e.wired c = true → 0 < c.weight →
    (∃ v ∈ log.visits, v.candidate = c) ∨ (c, false) ∈ poll

def outcomeAttempts : Except Error Result → List Attempt
  | .ok res => res.attempts
  | .error failure => failure.attempts

namespace Engine
variable {e : Engine} {tier : Tier} {tried : List String} {req : CanonicalRequest} {c : Candidate}

/-- Exhaustive, bounded failover with an exact log, as a property of one run. -/
def FailsOverExactly (e : Engine) (tiers : List Tier) (req : CanonicalRequest) (tr : Trace)
    (r : Option (Except Error Result)) : Prop :=
  ∃ (out : Except Error Result) (logs : List TierLog), r = some out ∧
    observe tr = logs.flatMap (TierLog.trace req) ∧
    logs.map TierLog.tier <+: tiers ∧ (∀ log ∈ logs, log.Valid e) ∧
    outcomeAttempts out = calls tr ∧
    (∀ res, out = .ok res → (calls tr).getLast? = some ⟨res.provider, 200⟩) ∧
    (∀ failure, out = .error failure →
      (failure.err = .noHealthyProvider ↔ failure.attempts = []) ∧
      (e.stopped tr = false → logs.map TierLog.tier = tiers ∧ ∀ log ∈ logs, log.Covered e))

/-- No set of wired candidates with a positive weight among them adds up, in 64 bits, to
zero or less. -/
def Summable (e : Engine) (tier : Tier) : Prop :=
  ∀ ready : List Candidate, ready.Sublist (tier.candidates.filter e.wired) →
    (∃ c ∈ ready, 0 < c.weight) → 0 < weightFrom 0 ready

theorem polled_congr {tried tried' : List String} (same : ∀ name, name ∈ tried ↔ name ∈ tried')
    (cs : List Candidate) : e.polled tried cs = e.polled tried' cs := by
  unfold polled
  congr 1
  funext c
  simp only [same]

theorem Walk.fresh {visits : List Visit} {left : Option Poll} (h : Walk e tier tried visits left) :
    (visits.map fun v => v.candidate.providerName).Nodup ∧
      ∀ v ∈ visits, v.candidate.providerName ∉ tried := by
  induction h with
  | returned tried => simp
  | left asked light => simp
  | @visit tried v visits left asked up _ _ _ ih =>
      obtain ⟨distinct, later⟩ := ih
      have first : v.candidate.providerName ∉ tried := by
        have member : v.candidate ∈ e.polled tried tier.candidates := by
          rw [← asked]
          exact Poll.ready_sublist.mem up
        exact (mem_polled.mp member).2.1
      constructor
      · rw [List.map_cons, List.nodup_cons]
        refine ⟨?_, distinct⟩
        intro member
        obtain ⟨w, inVisits, same⟩ := List.mem_map.mp member
        exact later w inVisits (by rw [same]; exact List.mem_cons_self)
      · intro w member
        rcases List.mem_cons.mp member with rfl | inVisits
        · exact first
        · intro old
          exact later w inVisits (List.mem_cons_of_mem _ old)

theorem Walk.visited {visits : List Visit} {left : Option Poll} (h : Walk e tier tried visits left)
    {v : Visit} (member : v ∈ visits) :
    (v.candidate ∈ tier.candidates ∧ e.wired v.candidate = true) ∧
      v.replies.length ≤ e.cfg.maxAttemptsPerProvider.toInt.toNat ∧
      (v.admitted = false → v.replies = []) := by
  induction h with
  | returned tried => simp at member
  | left asked light => simp at member
  | visit asked up refused few _ ih =>
      rcases List.mem_cons.mp member with rfl | later
      · have inPolled := asked ▸ Poll.ready_sublist.mem up
        obtain ⟨own, -, hw⟩ := mem_polled.mp inPolled
        exact ⟨⟨own, hw⟩, few, refused⟩
      · exact ih later

/-- The poll on which a tier is given up asks for everything not tried, and nothing on
it can be picked. -/
theorem Walk.given_up {visits : List Visit} {poll : Poll} (h : Walk e tier tried visits (some poll)) :
    poll.map Prod.fst =
        e.polled (tried ++ visits.map fun v => v.candidate.providerName) tier.candidates ∧
      (poll.ready = [] ∨ weightFrom 0 poll.ready ≤ 0) := by
  generalize hl : some poll = left at h
  induction h with
  | returned tried => cases hl
  | left asked light =>
      cases hl
      simpa using ⟨asked, light⟩
  | @visit tried v visits left _ _ _ _ _ ih =>
      obtain ⟨asked, light⟩ := ih hl
      refine ⟨asked.trans ?_, light⟩
      apply polled_congr
      intro name
      rw [List.map_cons, List.mem_append, List.mem_append, List.mem_cons, List.mem_cons, or_assoc,
        or_left_comm]

theorem Walk.valid {visits : List Visit} {left : Option Poll} (h : Walk e tier [] visits left) :
    TierLog.Valid e ⟨tier, visits, left⟩ where
  once := h.fresh.1
  own _ member := (h.visited member).1
  bounded _ member := (h.visited member).2.1
  refused _ member := (h.visited member).2.2
  asked poll same := by
    change left = some poll at same
    subst same
    simpa using h.given_up.1

theorem polled_sublist (cs : List Candidate) :
    (e.polled tried cs).Sublist (cs.filter e.wired) := by
  unfold polled
  rw [← List.filter_filter]
  exact List.filter_sublist

theorem Walk.covered {visits : List Visit} {poll : Poll} (h : Walk e tier [] visits (some poll))
    (distinct : (tier.candidates.map Candidate.providerName).Nodup) (sum : e.Summable tier) :
    TierLog.Covered e ⟨tier, visits, some poll⟩ := by
  obtain ⟨asked, light⟩ := h.given_up
  refine ⟨poll, rfl, ?_⟩
  intro c own hw heavy
  by_cases seen : c.providerName ∈ visits.map fun v => v.candidate.providerName
  · obtain ⟨v, member, same⟩ := List.mem_map.mp seen
    have vOwn := (h.visited member).1.1
    exact .inl ⟨v, member, List.inj_on_of_nodup_map distinct vOwn own same⟩
  · right
    have inPoll : c ∈ poll.map Prod.fst := by
      rw [asked]
      exact mem_polled.mpr ⟨own, by simpa using seen, hw⟩
    obtain ⟨⟨d, up⟩, member, same⟩ := List.mem_map.mp inPoll
    change d = c at same
    subst same
    cases up with
    | false => exact member
    | true =>
        have ready := Poll.mem_ready.mpr member
        have sub : poll.ready.Sublist (tier.candidates.filter e.wired) := by
          have some : poll.ready.Sublist (poll.map Prod.fst) := Poll.ready_sublist
          rw [asked] at some
          exact some.trans (polled_sublist _)
        have positive := sum poll.ready sub ⟨d, ready, heavy⟩
        rcases light with empty | low
        · rw [empty] at ready
          cases ready
        · exact absurd positive (Int64.not_lt.mpr low)

theorem execute_failsOverExactly {tiers : List Tier} {tr : Trace} {r : Option (Except Error Result)}
    (distinct : ∀ tier ∈ tiers, (tier.candidates.map Candidate.providerName).Nodup)
    (budget : 1 ≤ e.cfg.maxAttemptsPerProvider) (sum : ∀ tier ∈ tiers, e.Summable tier)
    (h : Runs (e.execute tiers req) tr r) : e.FailsOverExactly tiers req tr r := by
  obtain ⟨logs, walks, seen, order, ended⟩ := executeFrom_log (budget_pos budget) h
  have valid : ∀ log ∈ logs, log.Valid e := fun log member => (walks log member).valid
  rcases ended with ⟨out, rfl, done⟩ | ⟨all, gone, p', carried, rfl⟩
  · cases done with
    | ok attempts last =>
        refine ⟨_, logs, rfl, seen, order, valid, by simpa [outcomeAttempts] using attempts, ?_, nofun⟩
        intro res same
        cases same
        exact last
    | error attempts called cause stop =>
        refine ⟨_, logs, rfl, seen, order, valid, by simpa [outcomeAttempts] using attempts, nofun, ?_⟩
        intro failure same
        cases same
        refine ⟨?_, fun free => by rw [stop] at free; cases free⟩
        simp only [List.nil_append] at attempts
        rw [attempts]
        exact iff_of_false cause called
  · refine ⟨_, logs, rfl, seen, order, valid, by simpa [outcomeAttempts] using carried.attempts,
      nofun, ?_⟩
    intro failure same
    cases same
    refine ⟨?_, fun _ => ⟨all, ?_⟩⟩
    · change p'.lastErr = _ ↔ p'.attempts = []
      rw [carried.lastErr, carried.attempts]
      simp
    · intro log member
      obtain ⟨poll, hl⟩ := gone log member
      have walk := walks log member
      have inTiers : log.tier ∈ tiers := by
        rw [← all]
        exact List.mem_map_of_mem member
      rcases log with ⟨tier, visits, left⟩
      change left = some poll at hl
      subst hl
      exact walk.covered (distinct tier inTiers) (sum tier inTiers)

theorem exists_poll {ready cs : List Candidate} (h : ready.Sublist cs) :
    ∃ poll : Poll, poll.map Prod.fst = cs ∧ poll.ready = ready := by
  induction h with
  | slnil => exact ⟨[], rfl, rfl⟩
  | cons c _ ih =>
      obtain ⟨poll, rfl, rfl⟩ := ih
      exact ⟨(c, false) :: poll, rfl, rfl⟩
  | cons_cons c _ ih =>
      obtain ⟨poll, rfl, rfl⟩ := ih
      exact ⟨(c, true) :: poll, rfl, rfl⟩

theorem poll_eq_of_trace {poll poll' : Poll} (asked : poll.map Prod.fst = poll'.map Prod.fst)
    (same : poll.trace = poll'.trace) : poll = poll' := by
  induction poll generalizing poll' with
  | nil => exact (List.map_eq_nil_iff.mp asked.symm).symm
  | cons q poll ih =>
      cases poll' with
      | nil => cases asked
      | cons q' poll' =>
          rcases q with ⟨c, up⟩
          rcases q' with ⟨c', up'⟩
          obtain ⟨rfl, askedRest⟩ := List.cons.inj asked
          obtain ⟨head, rest⟩ := List.cons.inj same
          have reply : up = up' := eq_of_heq (Sigma.mk.inj head).2
          rw [reply, ih askedRest rest]

/-- Surroundings in which no tier yields a pick: the run consists of its polls. -/
theorem executeFrom_drained {tiers : List Tier} {polls : Tier → Poll} {p : Progress}
    (asked : ∀ tier, (polls tier).map Prod.fst = e.polled [] tier.candidates)
    (light : ∀ tier ∈ tiers, (polls tier).ready = [] ∨ weightFrom 0 (polls tier).ready ≤ 0) :
    Runs (e.executeFrom req tiers p) (tiers.flatMap fun tier => (polls tier).trace)
      (some (.error ⟨p.lastErr, p.attempts⟩)) := by
  induction tiers with
  | nil => exact runs_pure.mpr ⟨rfl, rfl⟩
  | cons tier tiers ih =>
      have pick : Runs (e.pickFromTier tier []) (polls tier).trace none :=
        runs_pickFromTier.mpr ⟨_, asked tier, .inl ⟨rfl, light tier List.mem_cons_self, rfl⟩⟩
      have loop : Runs (e.tryTier tier req (tier.candidates.length + 1) [] p) (polls tier).trace
          (.advance p) :=
        runs_bind.mpr ⟨_, none, [], (List.append_nil _).symm, pick, runs_pure.mpr ⟨rfl, rfl⟩⟩
      refine runs_bind.mpr ⟨_, .advance p, _, rfl, loop, ?_⟩
      exact ih fun tier member => light tier (List.mem_cons_of_mem _ member)

/-- The only log such a run has. -/
theorem drained_logs {logs : List TierLog} {polls : Tier → Poll}
    (asked : ∀ tier, (polls tier).map Prod.fst = e.polled [] tier.candidates)
    (valid : ∀ log ∈ logs, log.Valid e) (gone : ∀ log ∈ logs, ∃ poll, log.left = some poll)
    (same : logs.flatMap (TierLog.trace req) = logs.flatMap fun log => (polls log.tier).trace) :
    ∀ log ∈ logs, log.visits = [] ∧ log.left = some (polls log.tier) := by
  have unvisited : ∀ log ∈ logs, log.visits = [] := by
    intro log member
    apply List.eq_nil_iff_forall_not_mem.mpr
    intro v inVisits
    have allowed : ⟨.allow v.candidate.providerName v.candidate.model, v.admitted⟩ ∈
        logs.flatMap (TierLog.trace req) := by
      refine List.mem_flatMap.mpr ⟨log, member, List.mem_append_left _ ?_⟩
      refine List.mem_flatMap.mpr ⟨v, inVisits, List.mem_append_right _ List.mem_cons_self⟩
    rw [same] at allowed
    obtain ⟨log', -, inPoll⟩ := List.mem_flatMap.mp allowed
    obtain ⟨q, -, absurd⟩ := List.mem_map.mp inPoll
    cases absurd
  induction logs with
  | nil => simp
  | cons log logs ih =>
      obtain ⟨poll, hl⟩ := gone log List.mem_cons_self
      have none := unvisited log List.mem_cons_self
      have askedHere := (valid log List.mem_cons_self).asked poll hl
      rw [none] at askedHere
      have head : log.trace req = poll.trace := by
        simp [TierLog.trace, visitsTrace, none, hl]
      have length : poll.trace.length = (polls log.tier).trace.length := by
        have := congrArg List.length (askedHere.trans (asked log.tier).symm)
        simpa [Poll.trace] using this
      simp only [List.flatMap_cons, head] at same
      obtain ⟨first, rest⟩ := List.append_inj same length
      have here := poll_eq_of_trace (askedHere.trans (asked log.tier).symm) first
      intro log' member
      rcases List.mem_cons.mp member with rfl | later
      · exact ⟨none, by rw [hl, here]⟩
      · exact ih (fun l m => valid l (List.mem_cons_of_mem _ m))
          (fun l m => gone l (List.mem_cons_of_mem _ m)) rest
          (fun l m => unvisited l (List.mem_cons_of_mem _ m)) log' later

/-- A trace of readiness polls is observed whole and stops nothing. -/
theorem polls_observed (tiers : List Tier) (polls : Tier → Poll) :
    observe (tiers.flatMap fun t => (polls t).trace) = tiers.flatMap fun t => (polls t).trace := by
  apply List.filter_eq_self.mpr
  intro ev inTrace
  obtain ⟨t, -, inPoll⟩ := List.mem_flatMap.mp inTrace
  obtain ⟨q, -, rfl⟩ := List.mem_map.mp inPoll
  rfl

theorem polls_not_stopped (tiers : List Tier) (polls : Tier → Poll) :
    e.stopped (tiers.flatMap fun t => (polls t).trace) = false := by
  apply List.any_eq_false.mpr
  intro ev inTrace
  obtain ⟨t, -, inPoll⟩ := List.mem_flatMap.mp inTrace
  obtain ⟨q, -, rfl⟩ := List.mem_map.mp inPoll
  simp [stops]

theorem summable_of_failsOverExactly {tiers : List Tier}
    (distinct : ∀ tier ∈ tiers, (tier.candidates.map Candidate.providerName).Nodup)
    (contract : ∀ tr r, Runs (e.execute tiers req) tr r → e.FailsOverExactly tiers req tr r)
    {tier : Tier} (member : tier ∈ tiers) : e.Summable tier := by
  intro ready sub heavy
  by_contra wrapped
  have asks : e.polled [] tier.candidates = tier.candidates.filter e.wired := by simp [polled]
  obtain ⟨bad, asked, rfl⟩ := exists_poll (asks ▸ sub)
  -- Only the chosen candidates of this tier are ready; everything else is down.
  let polls : Tier → Poll := fun t =>
    if t = tier then bad else (e.polled [] t.candidates).map fun c => (c, false)
  have here : polls tier = bad := if_pos rfl
  have askedAll : ∀ t, (polls t).map Prod.fst = e.polled [] t.candidates := by
    intro t
    by_cases same : t = tier
    · subst same
      rw [here, asked]
    · simp only [polls, if_neg same, List.map_map]
      exact List.map_id _
  have light : ∀ t ∈ tiers, (polls t).ready = [] ∨ weightFrom 0 (polls t).ready ≤ 0 := by
    intro t _
    by_cases same : t = tier
    · subst same
      rw [here]
      exact .inr (Int64.not_lt.mp wrapped)
    · left
      simp only [polls, if_neg same, Poll.ready]
      simp
  obtain ⟨out, logs, same, seen, -, valid, -, -, covered⟩ :=
    contract _ _ (executeFrom_drained askedAll light)
  cases same
  obtain ⟨all, cover⟩ := (covered _ rfl).2 (polls_not_stopped tiers polls)
  have shown : observe (tiers.flatMap fun t => (polls t).trace) =
      logs.flatMap fun log => (polls log.tier).trace := by
    rw [polls_observed, ← all, List.flatMap_map]
  have gone : ∀ log ∈ logs, ∃ poll, log.left = some poll := by
    intro log inLogs
    obtain ⟨poll, hl, -⟩ := cover log inLogs
    exact ⟨poll, hl⟩
  have only := drained_logs askedAll valid gone (seen.symm.trans shown)
  obtain ⟨log, inLogs, rfl⟩ := List.mem_map.mp (all ▸ member)
  obtain ⟨none, last⟩ := only log inLogs
  obtain ⟨poll, hl, every⟩ := cover log inLogs
  obtain ⟨c, inReady, positive⟩ := heavy
  have up := Poll.mem_ready.mp inReady
  have own : c ∈ log.tier.candidates.filter e.wired := sub.mem inReady
  obtain ⟨inTier, hw⟩ := List.mem_filter.mp own
  rcases every c inTier hw positive with ⟨v, visited, -⟩ | down
  · rw [none] at visited
    cases visited
  · rw [last, here] at hl
    cases hl
    have once : (bad.map Prod.fst).Nodup := by
      rw [asked]
      exact (List.Nodup.of_map _ (distinct _ member)).filter _
    cases List.inj_on_of_nodup_map once up down rfl

theorem weightFrom_toInt {cs : List Candidate} {w : Int64} (start : 0 ≤ w.toInt)
    (weights : ∀ c ∈ cs, 0 ≤ c.weight.toInt)
    (small : w.toInt + (cs.map fun c => c.weight.toInt).sum < 2 ^ 63) :
    (weightFrom w cs).toInt = w.toInt + (cs.map fun c => c.weight.toInt).sum := by
  induction cs generalizing w with
  | nil => simp [weightFrom]
  | cons c cs ih =>
      have here := weights c List.mem_cons_self
      have later : ∀ d ∈ cs, 0 ≤ d.weight.toInt := fun d member =>
        weights d (List.mem_cons_of_mem _ member)
      have rest : 0 ≤ (cs.map fun c => c.weight.toInt).sum := by
        apply List.sum_nonneg
        intro x member
        obtain ⟨d, inCs, rfl⟩ := List.mem_map.mp member
        exact later d inCs
      rw [List.map_cons, List.sum_cons] at small ⊢
      have noWrap : (w + c.weight).toInt = w.toInt + c.weight.toInt := by
        rw [Int64.toInt_add]
        apply Int.bmod_eq_of_le <;> omega
      change (weightFrom (w + c.weight) cs).toInt = _
      rw [ih (by omega) later (by omega), noWrap, add_assoc]

/-- Validated weights whose true total fits 64 bits never wrap. -/
theorem summable_of_bounded (weights : ∀ c ∈ tier.candidates, 0 ≤ c.weight.toInt)
    (small : (tier.candidates.map fun c => c.weight.toInt).sum < 2 ^ 63) : e.Summable tier := by
  intro ready sub heavy
  have inTier : ready.Sublist tier.candidates := sub.trans List.filter_sublist
  have below : (ready.map fun c => c.weight.toInt).sum ≤
      (tier.candidates.map fun c => c.weight.toInt).sum := by
    apply List.Sublist.sum_le_sum (inTier.map _)
    intro x member
    obtain ⟨c, own, rfl⟩ := List.mem_map.mp member
    exact weights c own
  have own : ∀ c ∈ ready, 0 ≤ c.weight.toInt := fun c member => weights c (inTier.mem member)
  have zero : (0 : Int64).toInt = 0 := rfl
  obtain ⟨c, member, positive⟩ := heavy
  have part : c.weight.toInt ≤ (ready.map fun c => c.weight.toInt).sum := by
    apply List.single_le_sum
    · intro x inMap
      obtain ⟨d, inReady, rfl⟩ := List.mem_map.mp inMap
      exact own d inReady
    · exact List.mem_map_of_mem member
  rw [Int64.lt_iff_toInt_lt] at positive ⊢
  rw [weightFrom_toInt (by omega) own (by omega)]
  omega

/-- Failover is exhaustive, bounded and exactly logged in every run, whatever breakers,
random picks and providers do, if and only if no 64-bit weight total of a tier hides a
candidate of positive weight. -/
theorem execute_failsOverExactly_iff {tiers : List Tier}
    (distinct : ∀ tier ∈ tiers, (tier.candidates.map Candidate.providerName).Nodup)
    (budget : 1 ≤ e.cfg.maxAttemptsPerProvider) :
    (∀ tr r, Runs (e.execute tiers req) tr r → e.FailsOverExactly tiers req tr r) ↔
      ∀ tier ∈ tiers, e.Summable tier := by
  constructor
  · intro contract tier member
    exact summable_of_failsOverExactly distinct contract member
  · intro sum tr r h
    exact execute_failsOverExactly distinct budget sum h

theorem two_tiers_failOverExactly :
    let tiers : List Tier :=
      [⟨[⟨"a", "m", 3⟩, ⟨"b", "m", 1⟩, ⟨"c", "m", 0⟩]⟩, ⟨[⟨"b", "small", 1⟩]⟩]
    let req : CanonicalRequest := { model := "m", messages := [] }
    ∀ tr r, Runs ((Engine.uniform ⟨2, 0, 0⟩).execute tiers req) tr r →
      (Engine.uniform ⟨2, 0, 0⟩).FailsOverExactly tiers req tr r := by
  intro tiers req
  apply (execute_failsOverExactly_iff (by decide) (by decide)).mpr
  intro tier member
  apply summable_of_bounded
  · revert tier
    decide
  · revert tier
    decide

/-- Two candidates of weight 2^62 in one tier: their total wraps to a negative number and
both ready candidates are passed over. -/
theorem heavy_tier_skipped :
    let tier : Tier := ⟨[⟨"a", "m", 4611686018427387904⟩, ⟨"b", "m", 4611686018427387904⟩]⟩
    let req : CanonicalRequest := { model := "m", messages := [] }
    let run := exec (calm (fun _ => ⟨.error (.other "unused"), 0⟩) fun _ => ⟨[], none, 0⟩)
      ((Engine.uniform ⟨1, 0, 0⟩).execute [tier] req) []
    (tier.candidates.map Candidate.providerName).Nodup ∧
      run.1 = [⟨.ready "a" "m", true⟩, ⟨.ready "b" "m", true⟩] ∧
      run.2 = some (.error ⟨.noHealthyProvider, []⟩) ∧
      ¬ ∀ tr r, Runs ((Engine.uniform ⟨1, 0, 0⟩).execute [tier] req) tr r →
        (Engine.uniform ⟨1, 0, 0⟩).FailsOverExactly [tier] req tr r := by
  intro tier req run
  have distinct : (tier.candidates.map Candidate.providerName).Nodup := by decide
  refine ⟨distinct, rfl, rfl, ?_⟩
  intro contract
  have sum := summable_of_failsOverExactly (by simpa using distinct) contract
    (List.mem_singleton_self tier)
  have positive := sum tier.candidates (by decide) ⟨_, List.mem_cons_self, by decide⟩
  exact absurd positive (by decide)

end Engine
end Gateway.Retry
