import InferenceGateway.Json.Text
import InferenceGateway.Providers.OpenAI
import InferenceGateway.Server.Framing
import InferenceGateway.Utf8.Runes

/-! A gateway in front of another: what Stream of the OpenAI dialect reads from the events that
the streaming handler writes. -/
namespace Gateway.Providers

/-- No send found the context done. -/
def Uncancelled (tr : List (Interaction.Event SendOp SendOp.Reply)) : Prop :=
  ∀ ev ∈ tr, (received ev).isSome = true

def Delta.parts (d : Delta) : String × String := (d.content, d.finishReason)

namespace OpenAI
open Json (Value)

/-- A field of type string, as json.Unmarshal fills it: absent and null leave it empty. -/
def decodeText (name : String) (members : List (String × Value)) : Option String :=
  match members.lookup name with
  | none | some .null => some ""
  | some (.str s) => some s
  | some _ => none

def decodeDelta (members : List (String × Value)) : Option String :=
  match members.lookup "delta" with
  | none | some .null => some ""
  | some (.obj fields) => decodeText "content" fields
  | some _ => none

def decodeChoice : Value → Option ChunkChoice
  | .null => some ⟨"", ""⟩
  | .obj members => do
      let content ← decodeDelta members
      let finishReason ← decodeText "finish_reason" members
      some ⟨content, finishReason⟩
  | _ => none

/-- A parsed text as a streamChunk, if every field it has is of the right type. -/
def decodeChunk : Value → Option StreamChunk
  | .null => some ⟨[]⟩
  | .obj members =>
      match members.lookup "choices" with
      | none | some .null => some ⟨[]⟩
      | some (.arr items) => (items.mapM decodeChoice).map (⟨·⟩)
      | some _ => none
  | _ => none

/-- Unmarshal reads back what Marshal wrote of a chunk of the gateway. -/
def Codec.ReadsChunks (c : Codec) : Prop :=
  ∀ id created model role content finishReason chunk,
    decodeChunk (Server.chunkJSON id created model role content finishReason) = some chunk →
    c.unmarshalChunk (Scanner.utf8
      (Server.chunkJSON id created model role content finishReason).text) = .ok chunk

theorem decodeChunk_chunkJSON (id : String) (created : Int) (model content finishReason : String) :
    decodeChunk (Server.chunkJSON id created model "" content (Server.nilIfEmpty finishReason)) =
      some ⟨[⟨content, finishReason⟩]⟩ := by
  by_cases empty : content = ""
  · subst empty
    by_cases null : finishReason = ""
    · subst null
      rfl
    · simp only [Server.nilIfEmpty, null, if_false]
      rfl
  · by_cases null : finishReason = ""
    · subst null
      simp only [Server.chunkJSON, empty, if_false]
      rfl
    · simp only [Server.chunkJSON, Server.nilIfEmpty, empty, null, if_false]
      rfl

end OpenAI
end Gateway.Providers

namespace Gateway.Server
open Gateway.Providers EventStream Http Scanner
open Interaction hiding Program.perform
open Interaction.Program hiding pure perform

/-- The events of a stream that runs to its end: a chunk for each delta, and the end mark. -/
def sendAll (ctx : StreamContext) : List Delta → ServerM Unit
  | [] => do
      let _ ← writeSSEDone
  | d :: deltas => do
      let _ ← sendChunk ctx d
      sendAll ctx deltas

def sentText (ctx : StreamContext) (deltas : List Delta) : String :=
  String.join (deltas.map fun d => dataEvent (chunkText ctx d)) ++ dataEvent "[DONE]"

theorem sentText_cons (ctx : StreamContext) (d : Delta) (deltas : List Delta) :
    sentText ctx (d :: deltas) = dataEvent (chunkText ctx d) ++ sentText ctx deltas := by
  rw [sentText, List.map_cons, String.join_cons, String.append_assoc]
  rfl

theorem sendAll_written {ctx : StreamContext} {deltas : List Delta} {tr : Trace}
    (run : Runs (sendAll ctx deltas) tr ()) (writes : WritesSucceed tr) :
    written (httpCalls tr) = sentText ctx deltas := by
  induction deltas generalizing tr with
  | nil =>
      obtain ⟨failed, tr', rfl, ended⟩ := runs_perform_bind.mp run
      obtain ⟨rfl, -⟩ := runs_pure.mp ended
      rfl
  | cons d deltas ih =>
      obtain ⟨own, failed, rest, rfl, first, later⟩ := runs_bind.mp run
      rw [httpCalls_append, written_append, (sendChunk_calls writes.left first).2,
        ih later writes.right, sentText_cons]
      simp [written, Call.text]

theorem runs_sendChunk (ctx : StreamContext) (d : Delta) :
    Runs (sendChunk ctx d)
      [⟨.http (.write (dataEvent (chunkText ctx d))), none⟩, ⟨.http .flush, ()⟩] none := by
  have named : Runs (writeEventName "") [] none := runs_pure.mpr ⟨rfl, rfl⟩
  refine runs_bind.mpr ⟨[_], none, [_], rfl, ?_,
    runs_perform_bind.mpr ⟨(), [], rfl, runs_pure.mpr ⟨rfl, rfl⟩⟩⟩
  exact runs_bind.mpr ⟨[], none, _, rfl, named, runs_perform.mpr rfl⟩

/-- A client that takes every write is sent the whole stream. -/
theorem exists_sendAll (ctx : StreamContext) (deltas : List Delta) :
    ∃ tr, Runs (sendAll ctx deltas) tr () ∧ WritesSucceed tr := by
  induction deltas with
  | nil =>
      refine ⟨_, .request none (.pure ()), ?_⟩
      exact List.forall_mem_singleton.mpr rfl
  | cons d deltas ih =>
      obtain ⟨rest, later, writes⟩ := ih
      refine ⟨_, runs_bind.mpr ⟨_, none, rest, rfl, runs_sendChunk ctx d, later⟩, ?_⟩
      exact List.forall_mem_cons.mpr ⟨rfl, List.forall_mem_cons.mpr ⟨rfl, writes⟩⟩

theorem chunkText_braces (ctx : StreamContext) (d : Delta) :
    ∃ inner, (chunkText ctx d).toList = '{' :: inner ++ ['}'] :=
  Json.Value.text_obj _

theorem utf8_single_line {text : String} (single : SingleLine text) : 10 ∉ utf8 text := by
  intro member
  obtain ⟨c, listed, inside⟩ := List.mem_flatMap.mp member
  have code : c.toNat = 10 := Utf8.toNat_of_mem_encodeChar inside (by decide)
  have same : c = '\n' := Char.ext_iff.mpr (UInt32.toNat_inj.mp code)
  exact single (same ▸ listed)

/-- A line that ends in a brace keeps its last byte. -/
theorem dropCR_brace {text : String} {init : List Char} (ends : text.toList = init ++ ['}']) :
    dropCR (utf8 text) = utf8 text := by
  have bytes : utf8 text = Utf8.encode init ++ [125] := by
    rw [utf8, ends, List.flatMap_append]
    rfl
  rw [dropCR, bytes, List.getLast?_append, List.getLast?_singleton, if_neg]
  simp

/-- The two lines of an event. -/
theorem scan_dataEvent {limit : Nat} {endsWithData : Bool} {payload : String} {rest : Bytes}
    {failure : Option String} (single : SingleLine payload)
    (kept : dropCR (utf8 ("data: " ++ payload)) = utf8 ("data: " ++ payload))
    (fit : (utf8 ("data: " ++ payload)).length < limit) :
    (scan limit endsWithData (utf8 (dataEvent payload) ++ rest) failure).lines =
      utf8 ("data: " ++ payload) :: [] :: (scan limit endsWithData rest failure).lines := by
  have bytes : utf8 (dataEvent payload) ++ rest =
      utf8 ("data: " ++ payload) ++ 10 :: ([] ++ 10 :: rest) := by
    rw [dataEvent, utf8_append, List.append_assoc]
    rfl
  have line : SingleLine ("data: " ++ payload) := by
    rw [SingleLine, String.toList_append, List.mem_append, not_or]
    exact ⟨by decide, single⟩
  rw [bytes, scan_line (utf8_single_line line) fit, kept,
    scan_line List.not_mem_nil (Nat.zero_lt_of_lt fit)]
  rfl

section Reading
variable {c : OpenAI.Codec} {ctx : StreamContext} {endsWithData : Bool} {failure : Option String}
  {ending : Option CallError} {deltas : List Delta} {rest : Bytes}
  {sent : List (Event SendOp SendOp.Reply)} {out : Option CallError}

theorem scan_chunk (d : Delta) (fit : (utf8 ("data: " ++ chunkText ctx d)).length < maxLine) :
    (scan maxLine endsWithData (utf8 (dataEvent (chunkText ctx d)) ++ rest) failure).lines =
      utf8 ("data: " ++ chunkText ctx d) :: [] ::
        (scan maxLine endsWithData rest failure).lines := by
  obtain ⟨inner, braces⟩ := chunkText_braces ctx d
  have ends : ("data: " ++ chunkText ctx d).toList = ("data: ".toList ++ '{' :: inner) ++ ['}'] := by
    rw [String.toList_append, braces, List.append_assoc]
  exact scan_dataEvent (Json.Value.text_single_line _) (dropCR_brace ends) fit

theorem react_chunk (reads : c.ReadsChunks) (d : Delta) :
    OpenAI.react c () (utf8 ("data: " ++ chunkText ctx d)) =
      (.emit { content := d.content, finishReason := d.finishReason }, ()) := by
  obtain ⟨inner, braces⟩ := chunkText_braces ctx d
  have first : utf8 (chunkText ctx d) = 123 :: Utf8.encode (inner ++ ['}']) := by
    rw [utf8, braces]
    rfl
  have mark : utf8 (chunkText ctx d) ≠ utf8 "[DONE]" := by
    rw [first]
    exact fun same => absurd (List.cons.inj same).1 (by decide)
  have decoded : c.unmarshalChunk (utf8 (chunkText ctx d)) = .ok ⟨[⟨d.content, d.finishReason⟩]⟩ :=
    reads _ _ _ _ _ _ _ (OpenAI.decodeChunk_chunkJSON ..)
  rw [OpenAI.react, utf8_append, cutPrefix_append]
  simp only [if_neg mark, if_neg (first ▸ List.cons_ne_nil _ _ : utf8 (chunkText ctx d) ≠ []), decoded]

/-- Reading the events of a stream sends its deltas and stops at the end mark. -/
theorem runs_readLines_sentText (reads : c.ReadsChunks)
    (fits : ∀ d ∈ deltas, (utf8 ("data: " ++ chunkText ctx d)).length < maxLine) :
    Runs (readLines (OpenAI.react c) ending ()
        (scan maxLine endsWithData (utf8 (sentText ctx deltas) ++ rest) failure).lines) sent out ∧
      Uncancelled sent ↔
    sent = deltas.map (fun d =>
      ⟨.send { content := d.content, finishReason := d.finishReason }, none⟩) ∧ out = none := by
  induction deltas generalizing sent with
  | nil =>
      have lines : (scan maxLine endsWithData (utf8 (sentText ctx []) ++ rest) failure).lines =
          utf8 ("data: " ++ "[DONE]") :: [] :: (scan maxLine endsWithData rest failure).lines :=
        scan_dataEvent (show '\n' ∉ "[DONE]".toList by decide) (by decide) (by decide)
      have ended : OpenAI.react c () (utf8 ("data: " ++ "[DONE]")) = (.finish, ()) := rfl
      simp only [lines, readLines, ended, runs_pure, List.map_nil]
      constructor
      · rintro ⟨⟨rfl, rfl⟩, -⟩
        exact ⟨rfl, rfl⟩
      · rintro ⟨rfl, rfl⟩
        exact ⟨⟨rfl, rfl⟩, fun ev member => absurd member List.not_mem_nil⟩
  | cons d deltas ih =>
      rw [List.forall_mem_cons] at fits
      have blank : OpenAI.react c () [] = (.skip, ()) := rfl
      rw [sentText_cons, utf8_append, List.append_assoc, scan_chunk d fits.1]
      simp only [readLines, react_chunk reads, blank]
      constructor
      · rintro ⟨run, uncancelled⟩
        obtain ⟨done, later, rfl, going⟩ := runs_perform_bind.mp run
        rw [Uncancelled, List.forall_mem_cons] at uncancelled
        cases done with
        | some err => cases uncancelled.1
        | none =>
            obtain ⟨rfl, rfl⟩ := (ih fits.2).mp ⟨going, uncancelled.2⟩
            exact ⟨rfl, rfl⟩
      · rintro ⟨rfl, rfl⟩
        obtain ⟨going, uncancelled⟩ := (ih fits.2).mpr ⟨rfl, rfl⟩
        refine ⟨runs_perform_bind.mpr ⟨none, _, rfl, going⟩, ?_⟩
        rw [Uncancelled, List.map_cons, List.forall_mem_cons]
        exact ⟨rfl, uncancelled⟩

end Reading

/-- Stream reads back the deltas the gateway has sent, and returns at the end mark whatever
follows it. -/
theorem stream_inverts_sendAll {c : OpenAI.Codec} (reads : c.ReadsChunks) {ctx : StreamContext}
    {deltas : List Delta}
    (fits : ∀ d ∈ deltas, (utf8 ("data: " ++ chunkText ctx d)).length < maxLine) {tr : Trace}
    (run : Runs (sendAll ctx deltas) tr ()) (writes : WritesSucceed tr) {u : Upstream}
    (ok : u.status < 400) {rest : Bytes} (body : u.body = utf8 (written (httpCalls tr)) ++ rest) :
    (∃ sent, Runs (OpenAI.stream c (.ok u)) sent none ∧ Uncancelled sent) ∧
      ∀ sent out, Runs (OpenAI.stream c (.ok u)) sent out → Uncancelled sent →
        (sent.filterMap received).map Delta.parts = deltas.map Delta.parts ∧ out = none := by
  have program : OpenAI.stream c (.ok u) = readLines (OpenAI.react c)
      (u.scan.err.map fun err => .other ("openai: read stream: " ++ err)) ()
      (scan maxLine u.endsWithData (utf8 (sentText ctx deltas) ++ rest) u.failure).lines := by
    rw [← sendAll_written run writes, ← body]
    exact if_neg (not_le.mpr ok)
  rw [program]
  constructor
  · exact ⟨_, (runs_readLines_sentText reads fits).mpr ⟨rfl, rfl⟩⟩
  · intro sent out streamed uncancelled
    obtain ⟨rfl, rfl⟩ := (runs_readLines_sentText reads fits).mp ⟨streamed, uncancelled⟩
    refine ⟨?_, rfl⟩
    rw [List.filterMap_map, List.map_filterMap]
    exact congrFun List.filterMap_eq_map deltas

open Classical in
/-- The codec that reads every value as decodeChunk does. -/
noncomputable def reading : OpenAI.Codec where
  unmarshalChunk data :=
    if known : ∃ v : Json.Value, utf8 v.text = data then
      match OpenAI.decodeChunk known.choose with
      | some chunk => .ok chunk
      | none => .error "json: cannot unmarshal"
    else .error "invalid character"
  unmarshalError _ := .error "invalid character"
  text _ := ""
  carriesError _ := false

theorem reading_readsChunks : reading.ReadsChunks := by
  intro id created model role content finishReason chunk decoded
  have known : ∃ v : Json.Value, utf8 v.text =
      utf8 (chunkJSON id created model role content finishReason).text := ⟨_, rfl⟩
  have same : known.choose = chunkJSON id created model role content finishReason :=
    Json.Value.text_injective (String.toList_injective (Utf8.encode_injective known.choose_spec))
  simp only [reading, dif_pos known, same, decoded]

def fronting : StreamContext := ⟨"chatcmpl-1", 0, "chat", true, none⟩

/-- Deltas whose texts look like the framing around them. -/
def framingLookalikes : List Delta :=
  [{ content := "data: [DONE]\n\n" }, {}, { content := "\"", finishReason := "stop" }]

def fronted : Upstream := { status := 200, body := utf8 (sentText fronting framingLookalikes) }

theorem lookalikes_read_back :
    reading.ReadsChunks ∧
      (∀ d ∈ framingLookalikes, (utf8 ("data: " ++ chunkText fronting d)).length < maxLine) ∧
      ∃ tr, Runs (sendAll fronting framingLookalikes) tr () ∧ WritesSucceed tr ∧
        fronted.status < 400 ∧ fronted.body = utf8 (written (httpCalls tr)) ++ [] ∧
        ∃ sent, Runs (OpenAI.stream reading (.ok fronted)) sent none ∧
          (sent.filterMap received).map Delta.parts = framingLookalikes.map Delta.parts := by
  have fits : ∀ d ∈ framingLookalikes,
      (utf8 ("data: " ++ chunkText fronting d)).length < maxLine := by
    simp only [framingLookalikes, List.forall_mem_cons, utf8_append, chunkText, Json.Value.text]
    simp only [utf8, String.toList_ofList]
    refine ⟨?_, ?_, ?_, by simp⟩
    · decide +kernel
    · decide +kernel
    · decide +kernel
  obtain ⟨tr, run, writes⟩ := exists_sendAll fronting framingLookalikes
  have body : fronted.body = utf8 (written (httpCalls tr)) ++ [] := by
    simp only [fronted, sendAll_written run writes, List.append_nil]
  have inverse := stream_inverts_sendAll reading_readsChunks fits run writes (by decide) body
  obtain ⟨⟨sent, streamed, uncancelled⟩, read⟩ := inverse
  exact ⟨reading_readsChunks, fits, tr, run, writes, by decide, body, sent, streamed,
    (read sent none streamed uncancelled).1⟩

end Gateway.Server
