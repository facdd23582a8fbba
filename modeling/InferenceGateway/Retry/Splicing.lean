import InferenceGateway.Retry.Rounds

/-! No splicing. Content that reached the callback ties the run to the one Stream call
it came from: that call is the last one the run starts, and the answer reports it. -/
namespace Gateway.Retry
open Gateway.Providers Interaction Interaction.Program

def Op.isStream : Op → Bool
  | .stream _ _ => true
  | _ => false

/-- The delta of a callback that returned nil, when it carried content. -/
def deliveredDelta : Event Op Op.Reply → Option Delta
  | ⟨.onDelta _ _ d, none⟩ => if d.content = "" then none else some d
  | _ => none

def delivered (tr : Trace) : List Delta := tr.filterMap deliveredDelta

def callback : Event Op Op.Reply → Option (String × String × Delta)
  | ⟨.onDelta name model d, _⟩ => some (name, model, d)
  | _ => none

/-- Every callback invocation of a trace, accepted or refused. -/
def callbacks (tr : Trace) : List (String × String × Delta) := tr.filterMap callback

/-- The last non-nil Usage of a sequence of deltas. -/
def lastUsage (ds : List Delta) : Option Usage := ds.foldl (fun u d => d.usage.or u) none

/-- The trace's last Stream call is this one, nothing was delivered before it, and
every callback after it carries a delta of this very call. -/
def LastCall (tr : Trace) (provider : String) (req : CanonicalRequest) (reply : StreamReply) : Prop :=
  ∃ before after, tr = before ++ ⟨.stream provider req, reply⟩ :: after ∧
    delivered before = [] ∧ (∀ ev ∈ after, ev.1.isStream = false) ∧
    callbacks after <+: reply.deltas.map fun d => (provider, req.model, d)

theorem delivered_append (tr₁ tr₂ : Trace) :
    delivered (tr₁ ++ tr₂) = delivered tr₁ ++ delivered tr₂ := List.filterMap_append

theorem callbacks_append (tr₁ tr₂ : Trace) :
    callbacks (tr₁ ++ tr₂) = callbacks tr₁ ++ callbacks tr₂ := List.filterMap_append

theorem delivered_nil : delivered [] = [] := rfl

theorem delivered_ctxErr (r : Option CtxError) : delivered [⟨.ctxErr, r⟩] = [] := rfl

theorem callbacks_eq_nil_of_waits {tr : Trace} (h : ∀ ev ∈ tr, ev.1.isWait = true) :
    callbacks tr = [] := by
  apply List.filterMap_eq_nil_iff.mpr
  rintro ⟨op, reply⟩ member
  have wait := h _ member
  cases op <;> first | rfl | cases wait

/-- Only a callback delivers. -/
theorem delivered_eq_nil_of_callbacks {tr : Trace} (h : callbacks tr = []) : delivered tr = [] := by
  apply List.filterMap_eq_nil_iff.mpr
  rintro ⟨op, reply⟩ member
  have quiet := List.filterMap_eq_nil_iff.mp h _ member
  cases op <;> first | rfl | cases quiet

theorem delivered_eq_nil_of_waits {tr : Trace} (h : ∀ ev ∈ tr, ev.1.isWait = true) :
    delivered tr = [] := delivered_eq_nil_of_callbacks (callbacks_eq_nil_of_waits h)

theorem delivered_eq_nil_of_polls {tr : Trace} (h : ∀ ev ∈ tr, ev.1.isPoll = true) :
    delivered tr = [] := by
  apply List.filterMap_eq_nil_iff.mpr
  rintro ⟨op, reply⟩ member
  have poll := h _ member
  cases op <;> first | rfl | cases poll

theorem LastCall.prepend {tr : Trace} {provider : String} {req : CanonicalRequest}
    {reply : StreamReply} (h : LastCall tr provider req reply) {first : Trace}
    (quiet : delivered first = []) : LastCall (first ++ tr) provider req reply := by
  obtain ⟨before, after, rfl, clean, last, own⟩ := h
  refine ⟨first ++ before, after, by simp, ?_, last, own⟩
  rw [delivered_append, quiet, clean]
  rfl

namespace Engine
variable {e : Engine} {tier : Tier} {tried : List String} {req providerReq : CanonicalRequest}
  {c : Candidate}

/-- The relay loop forwards a prefix of the call's deltas, starts no call, and reports
flushed exactly when it delivered content. -/
theorem relayDeltas_spec {name model : String} {err : Option CallError} {ds : List Delta}
    {usage : Option Usage} {flushed : Bool} {tr : Trace} {out : Relayed}
    (h : Runs (relayDeltas name model err ds usage flushed) tr out) :
    (∀ ev ∈ tr, ev.1.isStream = false) ∧
      callbacks tr <+: ds.map (fun d => (name, model, d)) ∧
      (out.flushed = true ↔ flushed = true ∨ delivered tr ≠ []) ∧
      (out.err = none → err = none ∧ out.usage = ds.foldl (fun u d => d.usage.or u) usage) := by
  induction ds generalizing usage flushed tr with
  | nil =>
      obtain ⟨rfl, rfl⟩ := runs_pure.mp h
      refine ⟨by simp, List.nil_prefix, by simp [delivered], fun none => ⟨none, rfl⟩⟩
  | cons d ds ih =>
      obtain ⟨refused, tr', rfl, rest⟩ := runs_perform_bind.mp h
      cases refused with
      | some failure =>
          obtain ⟨rfl, rfl⟩ := runs_pure.mp rest
          have nothing : delivered [⟨.onDelta name model d, some failure⟩] = [] := rfl
          refine ⟨by simp [Op.isStream], ?_, by simp [nothing], by simp⟩
          simp [callbacks, callback]
      | none =>
          obtain ⟨starts, own, flush, used⟩ := ih rest
          refine ⟨?_, ?_, ?_, used⟩
          · intro ev member
            rcases List.mem_cons.mp member with rfl | later
            · rfl
            · exact starts ev later
          · simp only [callbacks, List.filterMap_cons, callback, List.map_cons]
            exact (List.prefix_cons_inj _).mpr own
          · rw [flush]
            by_cases empty : d.content = ""
            · have same : delivered (⟨.onDelta name model d, none⟩ :: tr') = delivered tr' :=
                List.filterMap_cons_none (if_pos empty)
              simp [same, empty]
            · have more : delivered (⟨.onDelta name model d, none⟩ :: tr') = d :: delivered tr' :=
                List.filterMap_cons_some (if_neg empty)
              simp [more, empty]

/-- The successful call a visit or a run answers from. -/
def Answered (tr : Trace) (provider : String) (req : CanonicalRequest) (usage : Option Usage) : Prop :=
  ∃ reply : StreamReply, LastCall tr provider req reply ∧ reply.err = none ∧
    usage = lastUsage reply.deltas

theorem Answered.prepend {tr first : Trace} {provider : String} {usage : Option Usage}
    (h : Answered tr provider providerReq usage) (quiet : delivered first = []) :
    Answered (first ++ tr) provider providerReq usage := by
  obtain ⟨reply, last, fine, used⟩ := h
  exact ⟨reply, last.prepend quiet, fine, used⟩

theorem delivered_call {first tr : Trace} {provider : String} {reply : StreamReply}
    (quiet : delivered first = []) :
    delivered (first ++ ⟨.stream provider providerReq, reply⟩ :: tr) = delivered tr := by
  rw [delivered_append, quiet]
  rfl

theorem lastCall_of_relay (hm : providerReq.model = c.model) {reply : StreamReply}
    {relayed : Relayed} {first tr tail : Trace} (quiet : delivered first = [])
    (relay : Runs (relayDeltas c.providerName c.model reply.err reply.deltas none false) tr relayed)
    (silent : callbacks tail = []) (still : ∀ ev ∈ tail, ev.1.isStream = false) :
    LastCall (first ++ ⟨.stream c.providerName providerReq, reply⟩ :: (tr ++ tail))
      c.providerName providerReq reply := by
  obtain ⟨starts, own, -, -⟩ := relayDeltas_spec relay
  refine ⟨first, tr ++ tail, rfl, quiet, ?_, ?_⟩
  · intro ev member
    rcases List.mem_append.mp member with early | late
    · exact starts ev early
    · exact still ev late
  · rw [callbacks_append, silent, List.append_nil, hm]
    exact own

/-- What one visit to a candidate says about the Stream calls it made. -/
structure OneCall (c : Candidate) (providerReq : CanonicalRequest) (tr : Trace) (t : TriedStream) :
    Prop where
  flushed : t.flushed = true ↔ delivered tr ≠ []
  single : delivered tr ≠ [] → ∃ reply, LastCall tr c.providerName providerReq reply
  answered : t.err = none →
    Answered tr c.providerName providerReq t.usage ∨ (tr = [] ∧ t.usage = none)

theorem OneCall.of_silent {tr : Trace} {t : TriedStream} (quiet : delivered tr = [])
    (unflushed : t.flushed = false) (failed : t.err ≠ none) : OneCall c providerReq tr t where
  flushed := by simp [quiet, unflushed]
  single some := absurd quiet some
  answered none := absurd none failed

theorem OneCall.prepend {tr first : Trace} {t : TriedStream} (h : OneCall c providerReq tr t)
    (quiet : delivered first = []) (called : t.err = none → tr ≠ []) :
    OneCall c providerReq (first ++ tr) t := by
  have same : delivered (first ++ tr) = delivered tr := by
    rw [delivered_append, quiet, List.nil_append]
  refine ⟨by rw [same]; exact h.flushed, ?_, ?_⟩
  · intro some
    rw [same] at some
    obtain ⟨reply, last⟩ := h.single some
    exact ⟨reply, last.prepend quiet⟩
  · intro none
    rcases h.answered none with answer | ⟨empty, -⟩
    · exact .inl (answer.prepend quiet)
    · exact absurd empty (called none)

/-- The exits of one iteration that make no further call. -/
theorem oneCall_of_relay (hm : providerReq.model = c.model) {reply : StreamReply}
    {relayed : Relayed} {first tr tail : Trace} {t : TriedStream} (quiet : delivered first = [])
    (relay : Runs (relayDeltas c.providerName c.model reply.err reply.deltas none false) tr relayed)
    (silent : callbacks tail = []) (still : ∀ ev ∈ tail, ev.1.isStream = false)
    (flushed : t.flushed = relayed.flushed)
    (success : t.err = none → relayed.err = none ∧ t.usage = relayed.usage) :
    OneCall c providerReq
      (first ++ ⟨.stream c.providerName providerReq, reply⟩ :: (tr ++ tail)) t := by
  have last := lastCall_of_relay hm quiet relay silent still
  obtain ⟨-, -, flush, used⟩ := relayDeltas_spec relay
  refine ⟨?_, fun _ => ⟨reply, last⟩, ?_⟩
  · rw [delivered_call quiet, delivered_append, delivered_eq_nil_of_callbacks silent,
      List.append_nil, flushed, flush]
    simp
  · intro none
    obtain ⟨fine, usage⟩ := success none
    obtain ⟨ended, total⟩ := used fine
    exact .inl ⟨reply, last, ended, usage.trans total⟩

/-- Every exit of an attempt loop that was entered unflushed reports its own calls. -/
theorem streamLoop_oneCall (hm : providerReq.model = c.model) {remaining attempt : Nat}
    {lastErr : Option CallError} {attempts : List Attempt} {duration : Duration} {tr : Trace}
    {t : TriedStream} (entered : lastErr = none → attempt = 0)
    (h : Runs (e.streamLoop c providerReq remaining attempt lastErr false attempts duration) tr t) :
    OneCall c providerReq tr t ∧ (t.err = none → tr = [] → lastErr = none ∧ remaining = 0) := by
  induction remaining generalizing attempt lastErr attempts duration tr with
  | zero =>
      obtain ⟨rfl, rfl⟩ := runs_pure.mp h
      refine ⟨⟨by simp [delivered], fun some => absurd rfl some, fun _ => .inr ⟨rfl, rfl⟩⟩, ?_⟩
      intro none _
      exact ⟨Option.map_eq_none_iff.mp none, rfl⟩
  | succ remaining ih =>
      obtain ⟨go, tr₁, tr₂, rfl, wait, stopped | called⟩ := streamLoop_succ h
      · obtain ⟨rfl, rfl, rfl⟩ := stopped
        have failed : lastErr ≠ none := by
          intro none
          have first := entered none
          subst first
          exact absurd (waitBefore_first wait).2 (by decide)
        have quiet := delivered_eq_nil_of_waits (waitBefore_waits wait)
        refine ⟨.of_silent (by simpa using quiet) rfl (by simpa using failed), ?_⟩
        intro none _
        exact absurd (Option.map_eq_none_iff.mp none) failed
      · obtain ⟨-, reply, relayed, tr₃, tr₄, rfl, relay, after⟩ := called
        refine ⟨?_, fun _ empty => by simp at empty⟩
        have quiet := delivered_eq_nil_of_waits (waitBefore_waits wait)
        simp only [Bool.false_or] at after
        generalize hr : relayed.err = failure at after
        generalize hf : relayed.flushed = reached at after
        cases after with
        | success =>
            exact oneCall_of_relay hm quiet relay rfl (by simp [Op.isStream]) hf.symm
              (fun _ => ⟨hr, rfl⟩)
        | broken err committed =>
            exact oneCall_of_relay hm quiet relay rfl (by simp) (by rw [hf, committed])
              (fun none => by cases none)
        | terminal err unflushed _ =>
            exact oneCall_of_relay hm quiet relay rfl (by simp) (by rw [hf, unflushed])
              (fun none => by cases none)
        | fallback err unflushed _ =>
            exact oneCall_of_relay hm quiet relay rfl (by simp [Op.isStream]) (by rw [hf, unflushed])
              (fun none => by cases none)
        | @retry err tr t unflushed _ again =>
            subst unflushed
            have nothing : delivered tr₃ = [] := by
              have flush := (relayDeltas_spec relay).2.2.1
              simpa [hf] using flush
            obtain ⟨visit, empty⟩ := ih (by simp) again
            have early : delivered (tr₁ ++ ⟨.stream c.providerName providerReq, reply⟩ :: (tr₃ ++
                [⟨.recordFailure c.providerName c.model, ()⟩])) = [] := by
              rw [delivered_call quiet, delivered_append, nothing]
              rfl
            have whole := visit.prepend early (fun none nil => by cases (empty none nil).1)
            simpa using whole

theorem tryCandidateStream_oneCall {attempts : List Attempt} {duration : Duration} {tr : Trace}
    {t : TriedStream} (h : Runs (e.tryCandidateStream c req attempts duration) tr t) :
    (t.flushed = true ↔ delivered tr ≠ []) ∧
      (delivered tr ≠ [] → ∃ reply, LastCall tr c.providerName { req with model := c.model } reply) ∧
      (t.err = none → Answered tr c.providerName { req with model := c.model } t.usage ∨
        (e.cfg.maxAttemptsPerProvider ≤ 0 ∧ delivered tr = [] ∧ t.usage = none)) := by
  obtain ⟨rfl, rfl⟩ | ⟨tr', rfl, loop⟩ := tryCandidateStream_cases h
  · refine ⟨by simp [delivered, deliveredDelta], by simp [delivered, deliveredDelta], by simp⟩
  · obtain ⟨visit, empty⟩ := streamLoop_oneCall rfl (fun _ => rfl) loop
    have quiet : delivered [⟨.allow c.providerName c.model, true⟩] = [] := rfl
    have same : delivered (⟨.allow c.providerName c.model, true⟩ :: tr') =
        delivered tr' := rfl
    refine ⟨by rw [same]; exact visit.flushed, ?_, ?_⟩
    · intro some
      obtain ⟨reply, last⟩ := visit.single (same ▸ some)
      exact ⟨reply, last.prepend quiet⟩
    · intro none
      rcases visit.answered none with answer | ⟨rfl, unused⟩
      · exact .inl (answer.prepend quiet)
      · have zero := (empty none rfl).2
        have low : e.cfg.maxAttemptsPerProvider ≤ 0 := by
          rw [Int64.le_iff_toInt_le]
          have := Int.toNat_eq_zero.mp zero
          simpa using this
        exact .inr ⟨low, rfl, unused⟩

/-- What a run of ExecuteStream, or a suffix of one, promises about the calls it made. -/
structure Unspliced (e : Engine) (req : CanonicalRequest) (tr : Trace)
    (out : Except StreamError StreamResult) : Prop where
  single : delivered tr ≠ [] →
    ∃ provider model reply, LastCall tr provider { req with model } reply
  flushed : ∀ failure, out = .error failure → (failure.flushed = true ↔ delivered tr ≠ [])
  answered : ∀ result, out = .ok result →
    Answered tr result.provider { req with model := result.model } result.usage ∨
      (e.cfg.maxAttemptsPerProvider ≤ 0 ∧ delivered tr = [] ∧ result.usage = none)

theorem Unspliced.prepend {tr first : Trace} {out : Except StreamError StreamResult}
    (h : Unspliced e req tr out) (quiet : delivered first = []) :
    Unspliced e req (first ++ tr) out := by
  have same : delivered (first ++ tr) = delivered tr := by
    rw [delivered_append, quiet, List.nil_append]
  refine ⟨?_, by rw [same]; exact h.flushed, ?_⟩
  · intro some
    obtain ⟨provider, model, reply, last⟩ := h.single (same ▸ some)
    exact ⟨provider, model, reply, last.prepend quiet⟩
  · intro result ok
    rcases h.answered result ok with answer | none
    · exact .inl (answer.prepend quiet)
    · exact .inr (by rw [same]; exact none)

theorem Unspliced.of_silent {tr : Trace} {failure : StreamError} (quiet : delivered tr = [])
    (unflushed : failure.flushed = false) : Unspliced e req tr (.error failure) where
  single some := absurd quiet some
  flushed := by
    intro failure' same
    cases same
    simp [quiet, unflushed]
  answered := nofun

theorem tryCandidateStream_rejected {attempts : List Attempt} {duration : Duration} {tr : Trace}
    {t : TriedStream} (h : Runs (e.tryCandidateStream c req attempts duration) tr t)
    (rejected : t.err = some .breakerRejected) : delivered tr = [] := by
  obtain ⟨rfl, -⟩ | ⟨tr', -, loop⟩ := tryCandidateStream_cases h
  · rfl
  · exact absurd rejected (streamLoop_not_rejected loop)

/-- A visit that ends the run has delivered what it says. -/
theorem EndsStream.unspliced {visit last : Trace} {t : TriedStream} {p : Progress}
    {r : Except StreamError StreamResult}
    (run : Runs (e.tryCandidateStream c req p.attempts p.duration) visit t)
    (h : EndsStream e c t last r) : Unspliced e req (visit ++ last) r := by
  obtain ⟨flushed, single, answered⟩ := tryCandidateStream_oneCall run
  have own : delivered visit ≠ [] →
      ∃ provider model reply, LastCall visit provider { req with model } reply := by
    intro some
    obtain ⟨reply, last⟩ := single some
    exact ⟨c.providerName, c.model, reply, last⟩
  have silent : t.flushed = false → delivered visit = [] := by
    intro unflushed
    simpa [unflushed] using flushed
  cases h with
  | served done =>
      rw [List.append_nil]
      refine ⟨own, nofun, ?_⟩
      intro result ok
      cases ok
      exact answered done
  | broken err _ committed =>
      rw [List.append_nil]
      refine ⟨own, ?_, nofun⟩
      intro failure same
      cases same
      exact iff_of_true rfl (flushed.mp committed)
  | terminal err _ unflushed _ =>
      rw [List.append_nil]
      exact .of_silent (silent unflushed) rfl
  | cancelled err ce _ unflushed _ => exact .prepend (.of_silent rfl rfl) (silent unflushed)

/-- A tier is asked again only with nothing delivered. -/
theorem ResumesStream.silent {visit next : Trace} {t : TriedStream} {p p' : Progress}
    (run : Runs (e.tryCandidateStream c req p.attempts p.duration) visit t)
    (h : ResumesStream e c p t next p') : delivered visit = [] ∧ delivered next = [] := by
  cases h with
  | rejected refused => exact ⟨tryCandidateStream_rejected run refused, delivered_nil⟩
  | reselect err _ unflushed _ =>
      obtain ⟨flushed, -⟩ := tryCandidateStream_oneCall run
      exact ⟨by simpa [unflushed] using flushed, delivered_ctxErr none⟩

theorem streamsTier_unspliced {p : Progress} {tr : Trace}
    {out : TierEnd (Except StreamError StreamResult)} (h : e.StreamsTier req tier tried p tr out) :
    (∃ p', out = .advance p' ∧ delivered tr = []) ∨
      ∃ r, out = .returned r ∧ Unspliced e req tr r := by
  induction h with
  | @left tried p tr pick => exact .inl ⟨p, rfl, delivered_eq_nil_of_polls (pickFromTier_polls pick)⟩
  | @ended tried p c t polls visit last r pick run ends =>
      have quiet := delivered_eq_nil_of_polls (pickFromTier_polls pick)
      exact .inr ⟨r, rfl, (ends.unspliced run).prepend quiet⟩
  | @resumed tried p p' c t polls visit next rest out pick run resumes later ih =>
      have quiet := delivered_eq_nil_of_polls (pickFromTier_polls pick)
      obtain ⟨early, between⟩ := resumes.silent run
      rcases ih with ⟨p'', rfl, none⟩ | ⟨r, rfl, more⟩
      · exact .inl ⟨p'', rfl, by simp [delivered_append, quiet, early, between, none]⟩
      · exact .inr ⟨r, rfl, ((more.prepend between).prepend early).prepend quiet⟩

theorem streams_unspliced {tiers : List Tier} {p : Progress} {tr : Trace}
    {out : Except StreamError StreamResult} (h : e.Streams req tiers p tr out) :
    Unspliced e req tr out := by
  induction h with
  | exhausted p => exact .of_silent rfl rfl
  | returned rounds =>
      rcases streamsTier_unspliced rounds with ⟨p', absurd, -⟩ | ⟨r, same, done⟩
      · cases absurd
      · cases same
        exact done
  | advanced rounds later ih =>
      rcases streamsTier_unspliced rounds with ⟨p', -, quiet⟩ | ⟨r, absurd, -⟩
      · exact ih.prepend quiet
      · cases absurd

theorem executeStreamFrom_unspliced {tiers : List Tier} {p : Progress} {tr : Trace}
    {r : Option (Except StreamError StreamResult)}
    (h : Runs (e.executeStreamFrom req tiers p) tr r) :
    ∃ out, r = some out ∧ Unspliced e req tr out := by
  obtain ⟨out, rfl, streams⟩ := executeStreamFrom_rounds h
  exact ⟨out, rfl, streams_unspliced streams⟩

/-- No splicing: whatever the breakers, the random picks, the providers and the callback
do, ExecuteStream returns, and all content it delivered is a prefix of one call's deltas,
that call being the last one it made. -/
theorem executeStream_never_splices {tiers : List Tier} {tr : Trace}
    {r : Option (Except StreamError StreamResult)} (h : Runs (e.executeStream tiers req) tr r) :
    ∃ out, r = some out ∧
      (delivered tr ≠ [] → ∃ provider model reply, LastCall tr provider { req with model } reply) ∧
      (∀ failure, out = .error failure → (failure.flushed = true ↔ delivered tr ≠ [])) ∧
      (∀ result, out = .ok result →
        (∃ reply : StreamReply,
          LastCall tr result.provider { req with model := result.model } reply ∧
          reply.err = none ∧ result.usage = lastUsage reply.deltas) ∨
        (e.cfg.maxAttemptsPerProvider ≤ 0 ∧ delivered tr = [] ∧ result.usage = none)) := by
  obtain ⟨out, same, single, flushed, answered⟩ := executeStreamFrom_unspliced h
  exact ⟨out, same, single, flushed, answered⟩

/-- Two attempts at a primary that fails after an empty delta, then content from the backup. -/
theorem executeStream_backup_unspliced :
    let tiers : List Tier := [⟨[⟨"primary", "large", 1⟩]⟩, ⟨[⟨"backup", "small", 1⟩]⟩]
    let stream : String → StreamReply := fun name =>
      if name = "primary" then ⟨[{}], some (.api { statusCode := 503, message := "down" }), 0⟩
      else ⟨[{ content := "Hel" }, { content := "lo", usage := some ⟨3, 2, 5⟩ }], none, 0⟩
    let run := exec (calm (fun _ => ⟨.error (.other "unused"), 0⟩) stream)
      ((Engine.uniform ⟨2, 0, 0⟩).executeStream tiers { model := "chat", messages := [] }) []
    (run.1.filter fun ev => ev.1.isStream).length = 3 ∧ (delivered run.1).length = 2 ∧
      ∃ provider model reply, LastCall run.1 provider { model, messages := [] } reply := by
  intro tiers stream run
  have two : (delivered run.1).length = 2 := by decide
  have some : delivered run.1 ≠ [] := by
    intro nil
    simp [nil] at two
  obtain ⟨-, -, single, -⟩ := executeStream_never_splices (exec_runs _ _ _ : Runs _ run.1 run.2)
  exact ⟨by decide, two, single some⟩

end Engine
end Gateway.Retry
