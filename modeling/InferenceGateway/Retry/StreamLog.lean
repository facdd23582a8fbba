import InferenceGateway.Retry.Splicing

/-! The Stream calls of a run of ExecuteStream, as a list. Every call but a last successful
one failed, and the list together with the relays accounts for all deltas of the run. -/
namespace Gateway.Retry
open Gateway.Providers Interaction Interaction.Program

/-- One Stream call with the relay of its deltas to the callback. -/
structure StreamCall where
  name : String
  req : CanonicalRequest
  reply : StreamReply
  relay : Trace
  relayed : Engine.Relayed

namespace StreamCall

/-- The relay is one of the relay loop, on this call's deltas. -/
def Valid (c : StreamCall) : Prop :=
  Runs (Engine.relayDeltas c.name c.req.model c.reply.err c.reply.deltas none false) c.relay c.relayed

def trace (c : StreamCall) : Trace := ⟨.stream c.name c.req, c.reply⟩ :: c.relay

end StreamCall

def Op.isStreaming : Op → Bool
  | .stream _ _ | .onDelta _ _ _ => true
  | _ => false

/-- The Stream calls and callbacks of a trace. -/
def streaming (tr : Trace) : Trace := tr.filter fun ev => ev.1.isStreaming

theorem streaming_append (tr₁ tr₂ : Trace) :
    streaming (tr₁ ++ tr₂) = streaming tr₁ ++ streaming tr₂ := List.filter_append _ _

theorem streaming_of_waits {tr : Trace} (h : ∀ ev ∈ tr, ev.1.isWait = true) : streaming tr = [] := by
  apply List.filter_eq_nil_iff.mpr
  rintro ⟨op, reply⟩ member
  have wait := h _ member
  cases op <;> first | exact Bool.false_ne_true | cases wait

theorem streaming_of_polls {tr : Trace} (h : ∀ ev ∈ tr, ev.1.isPoll = true) : streaming tr = [] := by
  apply List.filter_eq_nil_iff.mpr
  rintro ⟨op, reply⟩ member
  have poll := h _ member
  cases op <;> first | exact Bool.false_ne_true | cases poll

/-- No call of the list succeeded. -/
def Failed (calls : List StreamCall) : Prop := ∀ c ∈ calls, c.relayed.err ≠ none

/-- The last call is the only one that succeeded, and it answered the run. -/
def Succeeded (calls : List StreamCall) (name : String) (req : CanonicalRequest)
    (usage : Option Usage) : Prop :=
  ∃ init last, calls = init ++ [last] ∧ Failed init ∧ last.relayed.err = none ∧
    last.name = name ∧ last.req = req ∧ last.relayed.usage = usage

theorem Failed.nil : Failed [] := by simp [Failed]

theorem Failed.append {first second : List StreamCall} (h : Failed first) (later : Failed second) :
    Failed (first ++ second) := by
  intro c member
  rcases List.mem_append.mp member with early | late
  · exact h c early
  · exact later c late

theorem Succeeded.prepend {first calls : List StreamCall} {name : String} {req : CanonicalRequest}
    {usage : Option Usage} (failed : Failed first) (h : Succeeded calls name req usage) :
    Succeeded (first ++ calls) name req usage := by
  obtain ⟨init, last, rfl, before, fine⟩ := h
  exact ⟨first ++ init, last, by simp, failed.append before, fine⟩

/-- The calls account for everything a trace streams. -/
structure Logged (tr : Trace) (calls : List StreamCall) : Prop where
  streams : streaming tr = calls.flatMap StreamCall.trace
  valid : ∀ c ∈ calls, c.Valid

theorem Logged.of_silent {tr : Trace} (h : streaming tr = []) : Logged tr [] := ⟨h, by simp⟩

theorem Logged.append {tr₁ tr₂ : Trace} {first second : List StreamCall} (h : Logged tr₁ first)
    (later : Logged tr₂ second) : Logged (tr₁ ++ tr₂) (first ++ second) := by
  refine ⟨by rw [streaming_append, h.streams, later.streams, List.flatMap_append], ?_⟩
  intro c member
  rcases List.mem_append.mp member with early | late
  · exact h.valid c early
  · exact later.valid c late

/-- A relay consists of callbacks only. -/
theorem relay_streaming {name model : String} {err : Option CallError} {ds : List Delta}
    {usage : Option Usage} {flushed : Bool} {tr : Trace} {out : Engine.Relayed}
    (h : Runs (Engine.relayDeltas name model err ds usage flushed) tr out) : streaming tr = tr := by
  induction ds generalizing usage flushed tr with
  | nil =>
      obtain ⟨rfl, -⟩ := runs_pure.mp h
      rfl
  | cons d ds ih =>
      obtain ⟨refused, tr', rfl, rest⟩ := runs_perform_bind.mp h
      cases refused with
      | some failure =>
          obtain ⟨rfl, -⟩ := runs_pure.mp rest
          rfl
      | none =>
          have later := ih rest
          show _ :: streaming tr' = _
          rw [later]

theorem StreamCall.Valid.logged {c : StreamCall} (h : c.Valid) : Logged c.trace [c] := by
  refine ⟨?_, by simpa using h⟩
  show _ :: streaming c.relay = _
  rw [relay_streaming h]
  simp [trace]

namespace Engine
variable {e : Engine} {tier : Tier} {tried : List String} {req providerReq : CanonicalRequest}
  {c : Candidate}

/-- One visit's attempt loop, entered with an attempt to make. -/
theorem streamLoop_log (hm : providerReq.model = c.model) {remaining attempt : Nat}
    {lastErr : Option CallError} {flushed : Bool} {attempts : List Attempt} {duration : Duration}
    {tr : Trace} {t : TriedStream} (entered : lastErr = none → attempt = 0 ∧ 0 < remaining)
    (h : Runs (e.streamLoop c providerReq remaining attempt lastErr flushed attempts duration) tr t) :
    ∃ calls, Logged tr calls ∧ ((t.err ≠ none ∧ Failed calls) ∨
      (t.err = none ∧ Succeeded calls c.providerName providerReq t.usage)) := by
  induction remaining generalizing attempt lastErr flushed attempts duration tr with
  | zero =>
      obtain ⟨rfl, rfl⟩ := runs_pure.mp h
      refine ⟨[], .of_silent rfl, .inl ⟨?_, .nil⟩⟩
      intro fine
      exact absurd (entered (Option.map_eq_none_iff.mp fine)).2 (lt_irrefl 0)
  | succ remaining ih =>
      obtain ⟨go, tr₁, tr₂, rfl, wait, ⟨rfl, rfl, rfl⟩ |
        ⟨-, reply, relayed, tr₃, tr₄, rfl, relay, after⟩⟩ := streamLoop_succ h
      · refine ⟨[], .of_silent ?_, .inl ⟨?_, .nil⟩⟩
        · rw [List.append_nil]
          exact streaming_of_waits (waitBefore_waits wait)
        · intro fine
          obtain ⟨rfl, -⟩ := entered (Option.map_eq_none_iff.mp fine)
          exact absurd (waitBefore_first wait).2 (by decide)
      · have own : StreamCall.Valid ⟨c.providerName, providerReq, reply, tr₃, relayed⟩ := by
          rw [StreamCall.Valid, hm]
          exact relay
        have logged : ∀ {rest : Trace} {later : List StreamCall}, Logged rest later →
            Logged (tr₁ ++ ⟨.stream c.providerName providerReq, reply⟩ :: (tr₃ ++ rest))
              (⟨c.providerName, providerReq, reply, tr₃, relayed⟩ :: later) := by
          intro rest later last
          have waits : Logged tr₁ [] := .of_silent (streaming_of_waits (waitBefore_waits wait))
          exact waits.append (own.logged.append last)
        generalize hr : relayed.err = failure at after
        have failed : ∀ {err : CallError}, failure = some err →
            Failed [⟨c.providerName, providerReq, reply, tr₃, relayed⟩] := by
          intro err same
          simp [Failed, hr, same]
        cases after with
        | success =>
            refine ⟨_, logged (.of_silent rfl), .inr ⟨rfl, [], _, rfl, .nil, hr, rfl, rfl, rfl⟩⟩
        | broken err _ =>
            exact ⟨_, logged (.of_silent rfl), .inl ⟨by simp, failed rfl⟩⟩
        | terminal err _ _ =>
            exact ⟨_, logged (.of_silent rfl), .inl ⟨by simp, failed rfl⟩⟩
        | fallback err _ _ =>
            exact ⟨_, logged (.of_silent rfl), .inl ⟨by simp, failed rfl⟩⟩
        | @retry err tr t _ _ again =>
            obtain ⟨calls, last, ended⟩ := ih (by simp) again
            have quiet : Logged [⟨.recordFailure c.providerName c.model, ()⟩] [] := .of_silent rfl
            refine ⟨_, logged (quiet.append last), ?_⟩
            rcases ended with ⟨wrong, all⟩ | ⟨fine, last⟩
            · exact .inl ⟨wrong, (failed rfl).append all⟩
            · exact .inr ⟨fine, last.prepend (failed rfl)⟩

theorem tryCandidateStream_log (budget : 0 < e.cfg.maxAttemptsPerProvider.toInt.toNat)
    {attempts : List Attempt} {duration : Duration} {tr : Trace} {t : TriedStream}
    (h : Runs (e.tryCandidateStream c req attempts duration) tr t) :
    ∃ calls, Logged tr calls ∧ ((t.err ≠ none ∧ Failed calls) ∨
      (t.err = none ∧ Succeeded calls c.providerName { req with model := c.model } t.usage)) := by
  obtain ⟨rfl, rfl⟩ | ⟨tr', rfl, loop⟩ := tryCandidateStream_cases h
  · exact ⟨[], .of_silent rfl, .inl ⟨by simp, .nil⟩⟩
  · obtain ⟨calls, logged, ended⟩ := streamLoop_log rfl (fun _ => ⟨rfl, budget⟩) loop
    have quiet : Logged [⟨.allow c.providerName c.model, true⟩] [] := .of_silent rfl
    exact ⟨calls, quiet.append logged, ended⟩

/-- How a list of calls and the outcome of a run, or of a suffix of one, go together. -/
inductive Concluded (req : CanonicalRequest) (calls : List StreamCall) :
    Except StreamError StreamResult → Prop
  | error (failure : StreamError) : Failed calls → Concluded req calls (.error failure)
  | ok (result : StreamResult) :
      Succeeded calls result.provider { req with model := result.model } result.usage →
      Concluded req calls (.ok result)

theorem Concluded.prepend {first calls : List StreamCall} {out : Except StreamError StreamResult}
    (failed : Failed first) (h : Concluded req calls out) : Concluded req (first ++ calls) out := by
  cases h with
  | error failure all => exact .error failure (failed.append all)
  | ok result last => exact .ok result (last.prepend failed)

/-- A visit that ends the run concludes it. -/
theorem EndsStream.concluded {visit last : Trace} {t : TriedStream} {p : Progress}
    {r : Except StreamError StreamResult} (budget : 0 < e.cfg.maxAttemptsPerProvider.toInt.toNat)
    (run : Runs (e.tryCandidateStream c req p.attempts p.duration) visit t)
    (h : EndsStream e c t last r) :
    ∃ calls, Logged (visit ++ last) calls ∧ Concluded req calls r := by
  obtain ⟨calls, logged, ended⟩ := tryCandidateStream_log budget run
  have silent : streaming last = [] := by cases h <;> rfl
  have whole := logged.append (.of_silent silent)
  rw [List.append_nil] at whole
  refine ⟨calls, whole, ?_⟩
  rcases ended with ⟨wrong, failed⟩ | ⟨fine, answered⟩
  · cases h with
    | served done => exact absurd done wrong
    | broken err _ _ => exact .error _ failed
    | terminal err _ _ _ => exact .error _ failed
    | cancelled err ce _ _ _ => exact .error _ failed
  · cases h with
    | served done => exact .ok _ answered
    | broken err wrong _ => cases fine.symm.trans wrong
    | terminal err wrong _ _ => cases fine.symm.trans wrong
    | cancelled err ce wrong _ _ => cases fine.symm.trans wrong

/-- A visit that does not end the run leaves only failed calls behind. -/
theorem ResumesStream.failed {visit next : Trace} {t : TriedStream} {p p' : Progress}
    (budget : 0 < e.cfg.maxAttemptsPerProvider.toInt.toNat)
    (run : Runs (e.tryCandidateStream c req p.attempts p.duration) visit t)
    (h : ResumesStream e c p t next p') : ∃ calls, Logged (visit ++ next) calls ∧ Failed calls := by
  obtain ⟨calls, logged, ended⟩ := tryCandidateStream_log budget run
  have silent : streaming next = [] := by cases h <;> rfl
  have wrong : t.err ≠ none := by
    cases h with
    | rejected refused => simp [refused]
    | reselect err failed _ _ => simp [failed]
  have whole := logged.append (.of_silent silent)
  rw [List.append_nil] at whole
  rcases ended with ⟨-, failed⟩ | ⟨fine, -⟩
  · exact ⟨calls, whole, failed⟩
  · exact absurd fine wrong

theorem pick_logged {tr : Trace} {out : Option Candidate}
    (pick : Runs (e.pickFromTier tier tried) tr out) : Logged tr [] :=
  .of_silent (streaming_of_polls (pickFromTier_polls pick))

theorem streamsTier_log (budget : 0 < e.cfg.maxAttemptsPerProvider.toInt.toNat) {p : Progress}
    {tr : Trace} {out : TierEnd (Except StreamError StreamResult)}
    (h : e.StreamsTier req tier tried p tr out) :
    ∃ calls, Logged tr calls ∧ ((∃ p', out = .advance p' ∧ Failed calls) ∨
      ∃ r, out = .returned r ∧ Concluded req calls r) := by
  induction h with
  | @left tried p tr pick => exact ⟨[], pick_logged pick, .inl ⟨p, rfl, .nil⟩⟩
  | @ended tried p c t polls visit last r pick run ends =>
      obtain ⟨calls, logged, concluded⟩ := ends.concluded budget run
      exact ⟨calls, (pick_logged pick).append logged, .inr ⟨r, rfl, concluded⟩⟩
  | @resumed tried p p' c t polls visit next rest out pick run resumes later ih =>
      obtain ⟨calls, logged, failed⟩ := resumes.failed budget run
      obtain ⟨more, last, result⟩ := ih
      have whole := (pick_logged pick).append (logged.append last)
      rw [List.append_assoc] at whole
      refine ⟨calls ++ more, whole, ?_⟩
      rcases result with ⟨p'', rfl, all⟩ | ⟨r, rfl, done⟩
      · exact .inl ⟨p'', rfl, failed.append all⟩
      · exact .inr ⟨r, rfl, done.prepend failed⟩

theorem streams_log (budget : 0 < e.cfg.maxAttemptsPerProvider.toInt.toNat) {tiers : List Tier}
    {p : Progress} {tr : Trace} {out : Except StreamError StreamResult}
    (h : e.Streams req tiers p tr out) : ∃ calls, Logged tr calls ∧ Concluded req calls out := by
  induction h with
  | exhausted p => exact ⟨[], .of_silent rfl, .error _ .nil⟩
  | returned rounds =>
      obtain ⟨calls, logged, ⟨p', absurd, -⟩ | ⟨r, same, done⟩⟩ := streamsTier_log budget rounds
      · cases absurd
      · cases same
        exact ⟨calls, logged, done⟩
  | advanced rounds later ih =>
      obtain ⟨calls, logged, ⟨p', -, failed⟩ | ⟨r, absurd, -⟩⟩ := streamsTier_log budget rounds
      · obtain ⟨more, last, concluded⟩ := ih
        exact ⟨_, logged.append last, concluded.prepend failed⟩
      · cases absurd

/-- The calls of a whole run: all failed, or all but the last, which answered it. -/
theorem executeStream_log (budget : 1 ≤ e.cfg.maxAttemptsPerProvider) {tiers : List Tier}
    {tr : Trace} {out : Except StreamError StreamResult}
    (h : Runs (e.executeStream tiers req) tr (some out)) :
    ∃ calls, Logged tr calls ∧ Concluded req calls out := by
  obtain ⟨out', same, streams⟩ := executeStreamFrom_rounds h
  rw [Option.some.inj same]
  exact streams_log (budget_pos budget) streams

end Engine

/-- A callback that accepts every delta, or refuses every delta. -/
def Uniform (accepts : Bool) (tr : Trace) : Prop :=
  ∀ name model d reply, (⟨.onDelta name model d, reply⟩ : Event Op Op.Reply) ∈ tr →
    reply.isNone = accepts

def streamReply : Event Op Op.Reply → Option StreamReply
  | ⟨.stream _ _, reply⟩ => some reply
  | _ => none

/-- What the Stream calls of a trace did, in order. -/
def streamReplies (tr : Trace) : List StreamReply := tr.filterMap streamReply

/-- The deltas of a call that a uniform callback gets to see. -/
def StreamReply.offered (accepts : Bool) (reply : StreamReply) : List Delta :=
  if accepts then reply.deltas else reply.deltas.take 1

/-- The call ends its relay without an error. -/
def StreamReply.Finishes (accepts : Bool) (reply : StreamReply) : Prop :=
  reply.err = none ∧ (accepts = true ∨ reply.deltas = [])

theorem relay_uniform {accepts : Bool} {name model : String} {err : Option CallError}
    {ds : List Delta} {usage : Option Usage} {flushed : Bool} {tr : Trace} {out : Engine.Relayed}
    (uniform : Uniform accepts tr)
    (h : Runs (Engine.relayDeltas name model err ds usage flushed) tr out) :
    (callbacks tr).map (fun call => call.2.2) = (if accepts then ds else ds.take 1) ∧
      (out.err = none ↔ err = none ∧ (accepts = true ∨ ds = [])) := by
  induction ds generalizing usage flushed tr with
  | nil =>
      obtain ⟨rfl, rfl⟩ := runs_pure.mp h
      simp [callbacks]
  | cons d ds ih =>
      obtain ⟨refused, tr', rfl, rest⟩ := runs_perform_bind.mp h
      have here := uniform name model d refused List.mem_cons_self
      have later : Uniform accepts tr' := fun name model d reply member =>
        uniform name model d reply (List.mem_cons_of_mem _ member)
      cases refused with
      | some failure =>
          obtain ⟨rfl, rfl⟩ := runs_pure.mp rest
          subst here
          simp [callbacks, callback]
      | none =>
          subst here
          obtain ⟨seen, ended⟩ := ih later rest
          refine ⟨?_, by simpa using ended⟩
          simp only [callbacks, List.filterMap_cons, callback, List.map_cons]
          rw [callbacks] at seen
          rw [seen]
          rfl

theorem callbacks_streaming (tr : Trace) : callbacks (streaming tr) = callbacks tr := by
  unfold callbacks streaming
  rw [List.filterMap_filter]
  apply List.filterMap_congr
  rintro ⟨op, reply⟩ -
  cases op <;> rfl

theorem streamReplies_streaming (tr : Trace) : streamReplies (streaming tr) = streamReplies tr := by
  unfold streamReplies streaming
  rw [List.filterMap_filter]
  apply List.filterMap_congr
  rintro ⟨op, reply⟩ -
  cases op <;> rfl

theorem delivered_callbacks {accepts : Bool} {tr : Trace} (uniform : Uniform accepts tr) :
    delivered tr ≠ [] ↔ accepts = true ∧ ∃ call ∈ callbacks tr, call.2.2.content ≠ "" := by
  constructor
  · intro some
    obtain ⟨d, member⟩ := List.exists_mem_of_ne_nil _ some
    obtain ⟨⟨op, reply⟩, happened, seen⟩ := List.mem_filterMap.mp member
    cases op with
    | onDelta name model d' =>
        cases reply with
        | some failure => cases seen
        | none =>
            have content : d'.content ≠ "" := by
              intro empty
              simp [deliveredDelta, empty] at seen
            exact ⟨(uniform name model d' none happened).symm, (name, model, d'),
              List.mem_filterMap.mpr ⟨_, happened, rfl⟩, content⟩
    | _ => cases seen
  · rintro ⟨rfl, ⟨name, model, d⟩, member, content⟩
    obtain ⟨⟨op, reply⟩, happened, seen⟩ := List.mem_filterMap.mp member
    cases op with
    | onDelta name' model' d' =>
        cases seen
        have accepted := Option.isNone_iff_eq_none.mp (uniform name model d reply happened)
        subst accepted
        apply List.ne_nil_of_mem (a := d)
        exact List.mem_filterMap.mpr ⟨_, happened, by simp [deliveredDelta, content]⟩
    | _ => cases seen

theorem StreamCall.Valid.replies {c : StreamCall} (h : c.Valid) : streamReplies c.trace = [c.reply] := by
  show c.reply :: streamReplies c.relay = _
  have none : streamReplies c.relay = [] := by
    apply List.filterMap_eq_nil_iff.mpr
    rintro ⟨op, reply⟩ member
    have starts := (Engine.relayDeltas_spec h).1 _ member
    cases op <;> first | rfl | cases starts
  rw [none]

theorem Logged.replies {tr : Trace} {calls : List StreamCall} (h : Logged tr calls) :
    streamReplies tr = calls.map StreamCall.reply := by
  obtain ⟨streams, valid⟩ := h
  rw [← streamReplies_streaming, streams]
  clear streams
  induction calls with
  | nil => rfl
  | cons c calls ih =>
      have rest := ih fun c member => valid c (List.mem_cons_of_mem _ member)
      unfold streamReplies at rest ⊢
      rw [List.flatMap_cons, List.filterMap_append, rest, List.map_cons]
      exact congrArg (· ++ _) (valid c List.mem_cons_self).replies

/-- Under a uniform callback, each call settles what its relay saw and how it ended. -/
theorem Logged.uniform {accepts : Bool} {tr : Trace} {calls : List StreamCall} (h : Logged tr calls)
    (uniform : Uniform accepts tr) {c : StreamCall} (member : c ∈ calls) :
    (callbacks c.relay).map (fun call => call.2.2) = c.reply.offered accepts ∧
      (c.relayed.err = none ↔ c.reply.Finishes accepts) := by
  apply relay_uniform _ (h.valid c member)
  intro name model d reply happened
  apply uniform name model d reply
  have listed : (⟨.onDelta name model d, reply⟩ : Event Op Op.Reply) ∈ streaming tr := by
    rw [h.streams]
    exact List.mem_flatMap.mpr ⟨c, member, List.mem_cons_of_mem _ happened⟩
  exact (List.mem_filter.mp listed).1

theorem Logged.callbacks {accepts : Bool} {tr : Trace} {calls : List StreamCall} (h : Logged tr calls)
    (uniform : Uniform accepts tr) :
    (callbacks tr).map (fun call => call.2.2) = (streamReplies tr).flatMap (·.offered accepts) := by
  have each : ∀ c ∈ calls, (Retry.callbacks c.trace).map (fun call => call.2.2) =
      c.reply.offered accepts := fun c member => (h.uniform uniform member).1
  rw [h.replies, ← callbacks_streaming, h.streams]
  clear h uniform
  induction calls with
  | nil => rfl
  | cons c calls ih =>
      have rest := ih fun c member => each c (List.mem_cons_of_mem _ member)
      rw [List.flatMap_cons, callbacks_append, List.map_append, rest, each c List.mem_cons_self,
        List.map_cons, List.flatMap_cons]

/-- How the outcome of a run depends on the replies of its Stream calls, when the callback
takes every delta or none: it succeeds exactly if some call finishes. -/
theorem executeStream_uniform {e : Engine} {req : CanonicalRequest} {accepts : Bool}
    (budget : 1 ≤ e.cfg.maxAttemptsPerProvider) {tiers : List Tier} {tr : Trace}
    {out : Except StreamError StreamResult} (uniform : Uniform accepts tr)
    (h : Runs (e.executeStream tiers req) tr (some out)) :
    ((∃ result, out = .ok result) ↔ ∃ reply ∈ streamReplies tr, reply.Finishes accepts) ∧
      (callbacks tr).map (fun call => call.2.2) =
        (streamReplies tr).flatMap (·.offered accepts) := by
  obtain ⟨calls, logged, concluded⟩ := Engine.executeStream_log budget h
  refine ⟨?_, logged.callbacks uniform⟩
  rw [logged.replies]
  cases concluded with
  | error failure failed =>
      refine iff_of_false (by simp) ?_
      rintro ⟨reply, member, finishes⟩
      obtain ⟨c, listed, rfl⟩ := List.mem_map.mp member
      exact failed c listed ((logged.uniform uniform listed).2.mpr finishes)
  | ok result succeeded =>
      obtain ⟨init, last, rfl, -, fine, -⟩ := succeeded
      have listed : last ∈ init ++ [last] := by simp
      exact iff_of_true ⟨result, rfl⟩
        ⟨last.reply, List.mem_map_of_mem listed, (logged.uniform uniform listed).2.mp fine⟩

end Gateway.Retry
