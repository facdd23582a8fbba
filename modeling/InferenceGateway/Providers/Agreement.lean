import InferenceGateway.Providers.Complete

/-! One answer, delivered whole or as a stream. An upstream of either dialect may split its
answer into fragments as it likes and mix in events that say nothing; Complete and Stream
still make the same of it. -/
namespace Gateway.Providers
open Interaction Scanner

def textDelta (text : String) : Delta := { content := text }

namespace Anthropic

/-- A block of the answer with the fragments it is streamed in. -/
structure Block where
  kind : String
  deltaType : String
  fragments : List String
  texts : kind = "text" ↔ deltaType = "text_delta"

def Block.content (b : Block) : ContentBlock := ⟨b.kind, String.join b.fragments⟩

def Block.events (b : Block) : List StreamEvent :=
  b.fragments.map fun text =>
    { type := "content_block_delta", deltaType := b.deltaType, deltaText := text }

/-- A message of the Messages API. -/
structure Answer where
  id : String
  model : String
  blocks : List Block
  stopReason : String
  inputTokens : Int64
  outputTokens : Int64

namespace Answer

def response (a : Answer) : WireResponse where
  id := a.id
  model := a.model
  content := a.blocks.map Block.content
  stopReason := a.stopReason
  inputTokens := a.inputTokens
  outputTokens := a.outputTokens

/-- The events of the message up to its stop, without those that carry nothing. -/
def events (a : Answer) : List StreamEvent :=
  { type := "message_start", messageInputTokens := a.inputTokens } ::
    (a.blocks.flatMap Block.events ++
      [{ type := "message_delta", deltaStopReason := a.stopReason, outputTokens := a.outputTokens }])

end Answer

/-- The types Stream has a case for. -/
def handledTypes : List String :=
  ["message_start", "content_block_delta", "message_delta", "message_stop", "error"]

def handled (ev : StreamEvent) : Bool := handledTypes.contains ev.type

/-- The lines carry the message's events and then its stop; other events may come between,
and anything after it. -/
def Answer.Speaks (c : Codec) (a : Answer) (lines : List Bytes) : Prop :=
  ∃ (before : List Bytes) (stop : Bytes) (after : List Bytes) (evs : List StreamEvent)
    (last : StreamEvent), lines = before ++ stop :: after ∧
    (before.filterMap payload).map c.unmarshalEvent = evs.map .ok ∧ evs.filter handled = a.events ∧
    (payload stop).map c.unmarshalEvent = some (.ok last) ∧ last.type = "message_stop"

/-- What Stream sends for a sequence of events without a stop or an error. -/
def deltasOf : Int64 → List StreamEvent → List Delta
  | _, [] => []
  | inputTokens, ev :: evs =>
      if ev.type = "message_start" then deltasOf ev.messageInputTokens evs
      else if ev.type = "content_block_delta" then
        if ev.deltaType = "text_delta" then textDelta ev.deltaText :: deltasOf inputTokens evs
        else deltasOf inputTokens evs
      else if ev.type = "message_delta" then
        { finishReason := mapStopReason ev.deltaStopReason
          usage := some ⟨inputTokens, ev.outputTokens, inputTokens + ev.outputTokens⟩ } ::
          deltasOf inputTokens evs
      else deltasOf inputTokens evs

section Stream
variable {c : Codec} {ending : Option CallError} {inputTokens : Int64}

theorem react_payload {line data : Bytes} {ev : StreamEvent} (paid : payload line = some data)
    (decoded : c.unmarshalEvent data = .ok ev) :
    react c inputTokens line = reactTo c inputTokens data ev := by
  obtain ⟨cut, nonempty⟩ := payload_eq_some.mp paid
  simp only [react, cut, if_neg nonempty, decoded]

theorem react_nothing {line : Bytes} (unpaid : payload line = none) :
    react c inputTokens line = (.skip, inputTokens) := by
  unfold react
  rcases payload_eq_none.mp unpaid with none | empty
  · simp [none]
  · simp [empty]

/-- The loop on lines that carry events without a stop or an error, up to the stop. -/
theorem emissions_events {before after : List Bytes} {stop data : Bytes} {evs : List StreamEvent}
    {last : StreamEvent} (carried : (before.filterMap payload).map c.unmarshalEvent = evs.map .ok)
    (goesOn : ∀ ev ∈ evs, ev.type ≠ "message_stop" ∧ ev.type ≠ "error")
    (paid : payload stop = some data) (decoded : c.unmarshalEvent data = .ok last)
    (stops : last.type = "message_stop") :
    emissions (react c) ending inputTokens (before ++ stop :: after) =
      (deltasOf inputTokens evs, none) := by
  induction before generalizing evs inputTokens with
  | nil =>
      have done : evs = [] := List.map_eq_nil_iff.mp carried.symm
      subst done
      have finish : react c inputTokens stop = (.finish, inputTokens) := by
        rw [react_payload paid decoded]
        simp [reactTo, stops]
      rw [List.nil_append, emissions, finish]
      rfl
  | cons line before ih =>
      rw [List.cons_append, emissions]
      cases paid : payload line with
      | none =>
          rw [react_nothing paid]
          rw [List.filterMap_cons_none paid] at carried
          exact ih carried goesOn
      | some data =>
          rw [List.filterMap_cons_some paid, List.map_cons] at carried
          cases evs with
          | nil => cases carried
          | cons ev evs =>
              rw [List.map_cons] at carried
              obtain ⟨here, later⟩ := List.cons.inj carried
              obtain ⟨unstopped, fine⟩ := goesOn ev List.mem_cons_self
              have rest : ∀ s, emissions (react c) ending s (before ++ stop :: after) =
                  (deltasOf s evs, none) := by
                intro s
                exact ih later fun ev member => goesOn ev (List.mem_cons_of_mem _ member)
              rw [react_payload paid here]
              by_cases started : ev.type = "message_start"
              · simp [reactTo, deltasOf, started, rest]
              · by_cases block : ev.type = "content_block_delta"
                · by_cases text : ev.deltaType = "text_delta"
                  · simp [reactTo, deltasOf, block, text, rest, textDelta]
                  · simp [reactTo, deltasOf, block, text, rest]
                · by_cases final : ev.type = "message_delta"
                  · simp [reactTo, deltasOf, final, rest]
                  · simp [reactTo, deltasOf, started, block, final, unstopped, fine, rest]

/-- Events that Stream has no case for change nothing. -/
theorem deltasOf_filter (inputTokens : Int64) (evs : List StreamEvent) :
    deltasOf inputTokens (evs.filter handled) = deltasOf inputTokens evs := by
  induction evs generalizing inputTokens with
  | nil => rfl
  | cons ev evs ih =>
      cases known : handled ev with
      | true =>
          rw [List.filter_cons_of_pos known]
          simp only [deltasOf, ih]
      | false =>
          rw [List.filter_cons_of_neg (by simp [known])]
          simp only [handled, handledTypes, List.contains_cons, List.contains_nil, Bool.or_false,
            Bool.or_eq_false_iff, beq_eq_false_iff_ne] at known
          simp [deltasOf, known, ih]

/-- The text of the answer, fragment by fragment. -/
def textsOf (blocks : List Block) : List String :=
  (blocks.filter fun b => b.kind = "text").flatMap Block.fragments

theorem deltasOf_fragments (b : Block) (rest : List StreamEvent) :
    deltasOf inputTokens (b.events ++ rest) =
      (if b.kind = "text" then b.fragments.map textDelta else []) ++ deltasOf inputTokens rest := by
  obtain ⟨kind, deltaType, fragments, texts⟩ := b
  simp only [Block.events, texts]
  induction fragments with
  | nil => simp
  | cons text fragments ih =>
      rw [List.map_cons, List.cons_append, deltasOf, ih]
      by_cases written : deltaType = "text_delta"
      · simp [written]
      · simp [written]

theorem deltasOf_blocks (blocks : List Block) (rest : List StreamEvent) :
    deltasOf inputTokens (blocks.flatMap Block.events ++ rest) =
      (textsOf blocks).map textDelta ++ deltasOf inputTokens rest := by
  induction blocks with
  | nil => rfl
  | cons b blocks ih =>
      rw [List.flatMap_cons, List.append_assoc, deltasOf_fragments, ih]
      by_cases text : b.kind = "text"
      · simp [textsOf, text]
      · simp [textsOf, text]

theorem responseText_blocks (blocks : List Block) :
    responseText (blocks.map Block.content) = String.join (textsOf blocks) := by
  induction blocks using List.reverseRecOn with
  | nil => rfl
  | append_singleton blocks b ih =>
      unfold responseText at ih ⊢
      rw [List.map_append, List.foldl_append, ih]
      by_cases text : b.kind = "text"
      · simp [textsOf, Block.content, text, String.join_append]
      · simp [textsOf, Block.content, text]

theorem Answer.deltas (a : Answer) :
    deltasOf 0 a.events = (textsOf a.blocks).map textDelta ++
      [{ finishReason := mapStopReason a.stopReason
         usage := some ⟨a.inputTokens, a.outputTokens, a.inputTokens + a.outputTokens⟩ }] := by
  unfold Answer.events
  rw [deltasOf, if_pos rfl, deltasOf_blocks]
  rfl

theorem Answer.gist (a : Answer) (now : Int) :
    gistOf (deltasOf 0 a.events) =
      ⟨responseText a.response.content, mapStopReason a.stopReason,
        some (translateResponse now a.response).usage⟩ := by
  have texts := gistOf_texts (textsOf a.blocks)
  rw [a.deltas, gistOf_append_single]
  unfold textDelta
  rw [texts, ← responseText_blocks]
  simp [Gist.hear, Answer.response, translateResponse]

/-- No event of the message ends the stream before its stop. -/
theorem Answer.goes_on (a : Answer) : ∀ ev ∈ a.events, ev.type ≠ "message_stop" ∧ ev.type ≠ "error" := by
  intro ev member
  rcases List.mem_cons.mp member with rfl | later
  · simp
  rcases List.mem_append.mp later with block | final
  · obtain ⟨b, -, fragment⟩ := List.mem_flatMap.mp block
    obtain ⟨text, -, rfl⟩ := List.mem_map.mp fragment
    simp
  · rw [List.mem_singleton.mp final]
    simp

theorem Answer.Speaks.emissions {a : Answer} {lines : List Bytes} (h : a.Speaks c lines) :
    Providers.emissions (react c) ending 0 lines = (deltasOf 0 a.events, none) := by
  obtain ⟨before, stop, after, evs, last, rfl, carried, shown, decoded, stops⟩ := h
  obtain ⟨data, paid, decoded⟩ := Option.map_eq_some_iff.mp decoded
  rw [← shown, deltasOf_filter]
  refine emissions_events carried ?_ paid decoded stops
  intro ev member
  by_contra ended
  have known : handled ev = true := by
    rcases not_and_or.mp ended with stop | error
    · simp [handled, handledTypes, not_not.mp stop]
    · simp [handled, handledTypes, not_not.mp error]
  have listed : ev ∈ a.events := by
    rw [← shown]
    exact List.mem_filter.mpr ⟨member, known⟩
  exact ended (a.goes_on ev listed)

end Stream
end Anthropic

namespace OpenAI

/-- A completion with the fragments its text is streamed in, the last with the reason. -/
structure Answer where
  id : String
  object : String
  created : Int
  model : String
  fragments : List String
  last : String
  finishReason : String
  usage : Usage

namespace Answer

def response (a : Answer) : ChatResponse where
  id := a.id
  object := a.object
  created := a.created
  model := a.model
  choices := [⟨0, ⟨"assistant", String.join a.fragments ++ a.last⟩, a.finishReason⟩]
  usage := a.usage

def choices (a : Answer) : List ChunkChoice :=
  a.fragments.map (fun text => ⟨text, ""⟩) ++ [⟨a.last, a.finishReason⟩]

/-- The lines carry the completion's chunks and then the closing mark; chunks without a choice
may come between, and anything after it. -/
def Speaks (c : Codec) (a : Answer) (lines : List Bytes) : Prop :=
  ∃ (before : List Bytes) (done : Bytes) (after : List Bytes) (chunks : List StreamChunk),
    lines = before ++ done :: after ∧
    (before.filterMap payload).map c.unmarshalChunk = chunks.map .ok ∧
    utf8 "[DONE]" ∉ before.filterMap payload ∧
    chunks.filterMap (fun chunk => chunk.choices.head?) = a.choices ∧
    payload done = some (utf8 "[DONE]")

end Answer

def choiceDelta (choice : ChunkChoice) : Delta :=
  { content := choice.content, finishReason := choice.finishReason }

section Stream
variable {c : Codec} {ending : Option CallError}

theorem react_payload {line data : Bytes} {chunk : StreamChunk} (paid : payload line = some data)
    (open_ : data ≠ utf8 "[DONE]") (decoded : c.unmarshalChunk data = .ok chunk) :
    react c () line =
      ((chunk.choices.head?.map fun choice => .emit (choiceDelta choice)).getD .skip, ()) := by
  obtain ⟨cut, nonempty⟩ := payload_eq_some.mp paid
  simp only [react, cut, if_neg nonempty, if_neg open_, decoded]
  obtain ⟨choices⟩ := chunk
  cases choices <;> rfl

/-- The loop on lines that carry chunks, up to the closing mark. -/
theorem emissions_chunks {before after : List Bytes} {done : Bytes} {chunks : List StreamChunk}
    (carried : (before.filterMap payload).map c.unmarshalChunk = chunks.map .ok)
    (open_ : utf8 "[DONE]" ∉ before.filterMap payload) (closed : payload done = some (utf8 "[DONE]")) :
    emissions (react c) ending () (before ++ done :: after) =
      ((chunks.filterMap fun chunk => chunk.choices.head?).map choiceDelta, none) := by
  induction before generalizing chunks with
  | nil =>
      have none : chunks = [] := List.map_eq_nil_iff.mp carried.symm
      subst none
      have finish : react c () done = (.finish, ()) := by
        obtain ⟨cut, nonempty⟩ := payload_eq_some.mp closed
        simp only [react, cut, if_neg nonempty, if_true]
      rw [List.nil_append, emissions, finish]
      rfl
  | cons line before ih =>
      rw [List.cons_append, emissions]
      cases paid : payload line with
      | none =>
          have skip : react c () line = (.skip, ()) := by
            have skipped := react_unpaid c paid
            exact Prod.ext skipped rfl
          rw [skip]
          rw [List.filterMap_cons_none paid] at carried open_
          exact ih carried open_
      | some data =>
          rw [List.filterMap_cons_some paid] at carried open_
          rw [List.map_cons] at carried
          rw [List.mem_cons, not_or] at open_
          cases chunks with
          | nil => cases carried
          | cons chunk chunks =>
              rw [List.map_cons] at carried
              obtain ⟨here, later⟩ := List.cons.inj carried
              have rest := ih later open_.2
              rw [react_payload paid (Ne.symm open_.1) here]
              cases first : chunk.choices.head? with
              | none => simp [first, rest]
              | some choice => simp [first, rest]

theorem Answer.gist (a : Answer) :
    gistOf (a.choices.map choiceDelta) =
      ⟨String.join a.fragments ++ a.last, a.finishReason, none⟩ := by
  have texts := gistOf_texts a.fragments
  have same : a.choices.map choiceDelta =
      a.fragments.map textDelta ++ [choiceDelta ⟨a.last, a.finishReason⟩] := by
    simp [Answer.choices, choiceDelta, textDelta, Function.comp_def]
  rw [same, gistOf_append_single]
  unfold textDelta
  rw [texts]
  by_cases unfinished : a.finishReason = ""
  · simp [Gist.hear, choiceDelta, unfinished]
  · simp [Gist.hear, choiceDelta, unfinished]

theorem Answer.Speaks.emissions {a : Answer} {lines : List Bytes} (h : a.Speaks c lines) :
    Providers.emissions (react c) ending () lines = (a.choices.map choiceDelta, none) := by
  obtain ⟨before, done, after, chunks, rfl, carried, open_, shown, closed⟩ := h
  rw [emissions_chunks carried open_ closed, shown]

end Stream
end OpenAI

namespace Endpoint

/-- The body is a completion as a response, and the lines are the same one as a stream. -/
def Carry : Endpoint → Bytes → List Bytes → Prop
  | openai c unmarshalResponse, body, lines => ∃ a : OpenAI.Answer,
      unmarshalResponse body = .ok a.response ∧ a.Speaks c lines
  | anthropic c unmarshalResponse, body, lines => ∃ a : Anthropic.Answer,
      unmarshalResponse body = .ok a.response ∧ a.Speaks c lines

/-- Both upstreams answer without an error, with one and the same completion. -/
structure Delivers (e : Endpoint) (plain streamed : Upstream) : Prop where
  fine : plain.status < 400 ∧ streamed.status < 400
  whole : plain.failure = none
  same : e.Carry plain.body streamed.scan.lines

/-- Whether the stream tells the tokens used. -/
def streamsUsage : Endpoint → Bool
  | openai _ _ => false
  | anthropic _ _ => true

/-- What is left of a response when it is streamed. -/
def gist (e : Endpoint) (resp : CanonicalResponse) (choice : Choice) : Gist :=
  ⟨choice.message.content, choice.finishReason, if e.streamsUsage then some resp.usage else none⟩

theorem complete_of_decode {e : Endpoint} {now : Int} {u : Upstream} {resp : CanonicalResponse}
    (fine : u.status < 400) (whole : u.failure = none) (decoded : e.decode now u.body = .ok resp) :
    e.complete now (.ok u) = .ok resp := by
  simp only [complete, whole, if_neg (not_le.mpr fine), decoded]

/-- Complete and Stream make the same of an answer, up to a context that ends the stream. -/
theorem Delivers.agree {e : Endpoint} {plain streamed : Upstream} (h : e.Delivers plain streamed)
    (now : Int) :
    ∃ resp choice ds, e.complete now (.ok plain) = .ok resp ∧ resp.choices = [choice] ∧
      choice.index = 0 ∧ choice.message.role = "assistant" ∧ gistOf ds = e.gist resp choice ∧
      ∀ tr err, Program.Runs (e.dialect.stream (.ok streamed)) tr err →
        (err = none ∧ tr.filterMap received = ds) ∨
          ∃ ce, err = some (.ctx ce) ∧ tr.filterMap received <+: ds := by
  obtain ⟨⟨fine, flowing⟩, whole, same⟩ := h
  cases e with
  | openai c unmarshalResponse =>
      obtain ⟨a, decoded, speaks⟩ := same
      refine ⟨OpenAI.translateResponse a.response, _, a.choices.map OpenAI.choiceDelta,
        complete_of_decode fine whole ?_, rfl, rfl, rfl, a.gist, ?_⟩
      · simp [decode, decoded, Except.map]
      · intro tr err run
        simp only [dialect, Dialect.stream, OpenAI.stream, if_neg (not_le.mpr flowing)] at run
        have sent := readLines_emissions run
        rwa [speaks.emissions] at sent
  | anthropic c unmarshalResponse =>
      obtain ⟨a, decoded, speaks⟩ := same
      refine ⟨Anthropic.translateResponse now a.response, _, Anthropic.deltasOf 0 a.events,
        complete_of_decode fine whole ?_, rfl, rfl, rfl, a.gist now, ?_⟩
      · simp [decode, decoded, Except.map]
      · intro tr err run
        simp only [dialect, Dialect.stream, Anthropic.stream, if_neg (not_le.mpr flowing)] at run
        have sent := readLines_emissions run
        rwa [speaks.emissions] at sent

end Endpoint
end Gateway.Providers
