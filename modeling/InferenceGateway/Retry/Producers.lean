import InferenceGateway.Interaction.Attribution
import InferenceGateway.Retry.StreamLog

/-! Which provider the deltas of a run of ExecuteStream come from. -/
namespace Gateway.Retry
open Gateway.Providers Interaction Interaction.Program

def streamCall : Event Op Op.Reply → Option (String × StreamReply)
  | ⟨.stream name _, reply⟩ => some (name, reply)
  | _ => none

/-- The providers Stream was called on, with their replies. -/
def streamCalls (tr : Trace) : List (String × StreamReply) := tr.filterMap streamCall

def streamedTo (ev : Event Op Op.Reply) : Option String := (streamCall ev).map Prod.fst

def isCallback (ev : Event Op Op.Reply) : Bool := (callback ev).isSome

/-- For each callback the provider whose Stream call was under way. -/
def producers (source : Option String) (tr : Trace) : List (Option String) :=
  attributed streamedTo isCallback source tr

/-- A relay calls back for its first delta, and under the name of its call. -/
theorem relayDeltas_callbacks {name model : String} {err : Option CallError} {ds : List Delta}
    {usage : Option Usage} {flushed : Bool} {tr : Trace} {out : Engine.Relayed}
    (h : Runs (Engine.relayDeltas name model err ds usage flushed) tr out) :
    (tr = [] ↔ ds = []) ∧ ∀ ev ∈ tr, ∃ d reply, ev = ⟨.onDelta name model d, reply⟩ := by
  induction ds generalizing usage flushed tr with
  | nil =>
      obtain ⟨rfl, -⟩ := runs_pure.mp h
      simp
  | cons d ds ih =>
      obtain ⟨refused, tr', rfl, rest⟩ := runs_perform_bind.mp h
      refine ⟨by simp, List.forall_mem_cons.mpr ⟨⟨d, refused, rfl⟩, ?_⟩⟩
      cases refused with
      | some failure =>
          obtain ⟨rfl, -⟩ := runs_pure.mp rest
          simp
      | none => exact (ih rest).2

theorem producers_relay {c : StreamCall} (valid : c.Valid) (source : Option String) (rest : Trace) :
    producers source (c.relay ++ rest) =
      List.replicate c.relay.length source ++ producers source rest := by
  have events := (relayDeltas_callbacks valid).2
  generalize c.relay = relay at events
  induction relay with
  | nil => rfl
  | cons ev relay ih =>
      rw [List.forall_mem_cons] at events
      obtain ⟨⟨d, reply, rfl⟩, later⟩ := events
      have here : isCallback ⟨.onDelta c.name c.req.model d, reply⟩ = true := rfl
      rw [List.cons_append, producers, attributed_emit here]
      exact congrArg (source :: ·) (ih later)

theorem producers_streaming (source : Option String) (tr : Trace) :
    producers source (streaming tr) = producers source tr := by
  apply attributed_filter
  · rintro ⟨op, reply⟩ dropped
    cases op <;> first | rfl | cases dropped
  · rintro ⟨op, reply⟩ dropped
    cases op <;> first | rfl | cases dropped

namespace Logged
variable {tr : Trace} {calls : List StreamCall}

theorem streamCalls (h : Logged tr calls) :
    streamCalls tr = calls.map fun c => (c.name, c.reply) := by
  have kept : Retry.streamCalls (streaming tr) = Retry.streamCalls tr := by
    unfold Retry.streamCalls streaming
    rw [List.filterMap_filter]
    apply List.filterMap_congr
    rintro ⟨op, reply⟩ -
    cases op <;> rfl
  have single : ∀ c ∈ calls, Retry.streamCalls c.trace = [(c.name, c.reply)] := by
    intro c member
    have quiet : Retry.streamCalls c.relay = [] := by
      apply List.filterMap_eq_nil_iff.mpr
      intro ev happened
      obtain ⟨d, reply, rfl⟩ := (relayDeltas_callbacks (h.valid c member)).2 ev happened
      rfl
    exact congrArg ((c.name, c.reply) :: ·) quiet
  rw [← kept, h.streams, Retry.streamCalls, List.filterMap_flatMap, List.map_eq_flatMap]
  exact List.flatMap_congr single

/-- A callback names the provider of the call whose delta it is given. -/
theorem callback_named (h : Logged tr calls) {call : String × String × Delta}
    (member : call ∈ Retry.callbacks tr) : ∃ c ∈ calls, c.reply.deltas ≠ [] ∧ call.1 = c.name := by
  rw [← callbacks_streaming, h.streams] at member
  obtain ⟨ev, happened, named⟩ := List.mem_filterMap.mp member
  obtain ⟨c, listed, own⟩ := List.mem_flatMap.mp happened
  obtain ⟨emits, events⟩ := relayDeltas_callbacks (h.valid c listed)
  rcases List.mem_cons.mp own with rfl | relayed
  · cases named
  · obtain ⟨d, reply, rfl⟩ := events ev relayed
    cases named
    exact ⟨c, listed, fun none => List.ne_nil_of_mem relayed (emits.mpr none), rfl⟩

theorem callbacks_ne_nil (h : Logged tr calls) {c : StreamCall} (listed : c ∈ calls)
    (emits : c.reply.deltas ≠ []) : Retry.callbacks tr ≠ [] := by
  obtain ⟨none, events⟩ := relayDeltas_callbacks (h.valid c listed)
  obtain ⟨ev, relayed⟩ := List.exists_mem_of_ne_nil _ (mt none.mp emits)
  obtain ⟨d, reply, rfl⟩ := events ev relayed
  rw [← callbacks_streaming, h.streams]
  have happened : ⟨.onDelta c.name c.req.model d, reply⟩ ∈ calls.flatMap StreamCall.trace :=
    List.mem_flatMap.mpr ⟨c, listed, List.mem_cons_of_mem _ relayed⟩
  exact List.ne_nil_of_mem (List.mem_filterMap.mpr ⟨_, happened, rfl⟩)

/-- The producers of a run are the providers of the calls that emit something. -/
theorem mem_producers (h : Logged tr calls) {source q : Option String} :
    q ∈ producers source tr ↔ ∃ c ∈ calls, c.reply.deltas ≠ [] ∧ q = some c.name := by
  obtain ⟨streams, valid⟩ := h
  rw [← producers_streaming, streams]
  clear streams
  induction calls generalizing source with
  | nil => simp [producers, attributed]
  | cons c calls ih =>
      rw [List.forall_mem_cons] at valid
      have started : isCallback ⟨.stream c.name c.req, c.reply⟩ = false := rfl
      have emits := (relayDeltas_callbacks valid.1).1
      rw [List.flatMap_cons, StreamCall.trace, List.cons_append, producers, attributed_start started]
      change q ∈ producers (some c.name) _ ↔ _
      rw [producers_relay valid.1, List.mem_append, List.mem_replicate, ih valid.2,
        ne_eq, List.length_eq_zero_iff, emits]
      simp only [List.mem_cons, exists_eq_or_imp, ne_eq]

end Logged

end Gateway.Retry
