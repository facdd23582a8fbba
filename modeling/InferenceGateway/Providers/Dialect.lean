import InferenceGateway.Providers.Anthropic
import InferenceGateway.Providers.OpenAI

/-! What an upstream of either dialect means by the lines of its body, and when Stream
takes such a body for a finished completion. -/
namespace Gateway.Providers
open Interaction Scanner

inductive Dialect where
  | openai (c : OpenAI.Codec)
  | anthropic (c : Anthropic.Codec)

/-- The payload of a data line. -/
def payload (line : Bytes) : Option Bytes :=
  (cutPrefix (utf8 "data: ") line).filter fun data => data ≠ []

namespace Dialect

def stream : Dialect → Except CallError Upstream → StreamM (Option CallError)
  | openai c => OpenAI.stream c
  | anthropic c => Anthropic.stream c

/-- The line is the dialect's mark for the end of a completion. -/
def endsCompletion (d : Dialect) (line : Bytes) : Bool :=
  match d, payload line with
  | openai _, some data => decide (data = utf8 "[DONE]")
  | anthropic c, some data =>
      match c.unmarshalEvent data with
      | .ok ev => decide (ev.type = "message_stop")
      | .error _ => false
  | _, none => false

/-- The line reports an error of the upstream. -/
def reportsError (d : Dialect) (line : Bytes) : Bool :=
  match d, payload line with
  | openai c, some data => c.carriesError data
  | anthropic c, some data =>
      match c.unmarshalEvent data with
      | .ok ev => decide (ev.type = "error")
      | .error _ => false
  | _, none => false

/-- Stream gives up on the line: it does not decode, or it is an error event it knows. -/
def rejects (d : Dialect) (line : Bytes) : Bool :=
  match d, payload line with
  | openai c, some data =>
      match c.unmarshalChunk data with
      | .ok _ => false
      | .error _ => decide (data ≠ utf8 "[DONE]")
  | anthropic c, some data =>
      match c.unmarshalEvent data with
      | .ok ev => decide (ev.type = "error")
      | .error _ => true
  | _, none => false

/-- The body marks the end of the completion, with no error reported before. -/
def Complete (d : Dialect) (u : Upstream) : Prop :=
  ∃ before mark after, u.lines = before ++ mark :: after ∧ d.endsCompletion mark = true ∧
    ∀ line ∈ before, d.reportsError line = false

/-- A line that Stream reads, up to the end mark if there is one, overflows its buffer or
is rejected. -/
def Breaks (d : Dialect) (u : Upstream) : Prop :=
  ∃ p ∈ through d.endsCompletion (pieces u.body),
    p.fits maxLine u.endsWithData = false ∨ d.rejects p.line = true

end Dialect

theorem payload_eq_none {line : Bytes} : payload line = none ↔
    cutPrefix (utf8 "data: ") line = none ∨ cutPrefix (utf8 "data: ") line = some [] := by
  unfold payload
  cases cutPrefix (utf8 "data: ") line with
  | none => simp
  | some data => simp

theorem payload_eq_some {line data : Bytes} : payload line = some data ↔
    cutPrefix (utf8 "data: ") line = some data ∧ data ≠ [] := by
  rw [payload, Option.filter_eq_some_iff, decide_eq_true_eq]

namespace OpenAI
variable (c : Codec)

theorem react_unpaid {line : Bytes} (h : payload line = none) : (react c () line).1 = .skip := by
  unfold react
  rcases payload_eq_none.mp h with h | h <;> simp [h]

theorem react_finish_iff (s : Unit) (line : Bytes) :
    (react c s line).1 = .finish ↔ (Dialect.openai c).endsCompletion line = true := by
  cases paid : payload line with
  | none => simp [react_unpaid c paid, Dialect.endsCompletion, paid]
  | some data =>
      obtain ⟨cut, some⟩ := payload_eq_some.mp paid
      simp only [react, cut, if_neg some, Dialect.endsCompletion, paid, decide_eq_true_eq]
      by_cases mark : data = utf8 "[DONE]"
      · simp [mark]
      · rw [if_neg mark]
        refine iff_of_false ?_ mark
        split
        · simp
        · split <;> simp

theorem react_fail_iff (s : Unit) (line : Bytes) :
    (∃ err, (react c s line).1 = .fail err) ↔ (Dialect.openai c).rejects line = true := by
  cases paid : payload line with
  | none => simp [react_unpaid c paid, Dialect.rejects, paid]
  | some data =>
      obtain ⟨cut, some⟩ := payload_eq_some.mp paid
      simp only [react, cut, if_neg some, Dialect.rejects, paid]
      by_cases mark : data = utf8 "[DONE]"
      · rw [if_pos mark]
        cases c.unmarshalChunk data <;> simp [mark]
      · rw [if_neg mark]
        cases c.unmarshalChunk data with
        | error err => simp [mark]
        | ok chunk =>
            simp only
            split <;> simp

end OpenAI

namespace Anthropic
variable (c : Codec)

theorem react_unpaid {s : Int64} {line : Bytes} (h : payload line = none) :
    (react c s line).1 = .skip := by
  unfold react
  rcases payload_eq_none.mp h with h | h <;> simp [h]

theorem reactTo_finish_iff (s : Int64) (data : Bytes) (ev : StreamEvent) :
    (reactTo c s data ev).1 = .finish ↔ ev.type = "message_stop" := by
  unfold reactTo
  repeat' split
  all_goals simp_all

theorem reactTo_fail_iff (s : Int64) (data : Bytes) (ev : StreamEvent) :
    (∃ err, (reactTo c s data ev).1 = .fail err) ↔ ev.type = "error" := by
  unfold reactTo
  repeat' split
  all_goals simp_all

theorem react_finish_iff (s : Int64) (line : Bytes) :
    (react c s line).1 = .finish ↔ (Dialect.anthropic c).endsCompletion line = true := by
  cases paid : payload line with
  | none => simp [react_unpaid c paid, Dialect.endsCompletion, paid]
  | some data =>
      obtain ⟨cut, some⟩ := payload_eq_some.mp paid
      simp only [react, cut, if_neg some, Dialect.endsCompletion, paid]
      cases c.unmarshalEvent data with
      | error err => simp
      | ok ev => simpa using reactTo_finish_iff c s data ev

theorem react_fail_iff (s : Int64) (line : Bytes) :
    (∃ err, (react c s line).1 = .fail err) ↔ (Dialect.anthropic c).rejects line = true := by
  cases paid : payload line with
  | none => simp [react_unpaid c paid, Dialect.rejects, paid]
  | some data =>
      obtain ⟨cut, some⟩ := payload_eq_some.mp paid
      simp only [react, cut, if_neg some, Dialect.rejects, paid]
      cases c.unmarshalEvent data with
      | error err => simp
      | ok ev => simpa using reactTo_fail_iff c s data ev

end Anthropic

/-- A scan error of a body that ended cleanly is an overflow. -/
theorem Upstream.scan_err {u : Upstream} (clean : u.failure = none) (wrap : String → CallError) :
    u.scan.err.map wrap =
      if (pieces u.body).all (Piece.fits maxLine u.endsWithData) then none
      else some (wrap tooLong) := by
  simp only [Upstream.scan, Scanner.scan, clean]
  split <;> rfl

/-- Stream can return nil on a body that ended cleanly exactly when nothing it reads
breaks it; that the body was complete is not asked. -/
theorem Dialect.stream_succeeds_iff (d : Dialect) {u : Upstream} (fine : u.status < 400)
    (clean : u.failure = none) :
    (∃ tr, Program.Runs (d.stream (.ok u)) tr none) ↔ ¬ d.Breaks u := by
  have unbroken : ¬ d.Breaks u ↔ ∀ p ∈ through d.endsCompletion (pieces u.body),
      p.fits maxLine u.endsWithData = true ∧ d.rejects p.line = false := by
    simp [Dialect.Breaks]
  rw [unbroken]
  cases d with
  | openai c =>
      simp only [Dialect.stream, OpenAI.stream, if_neg (not_le.mpr fine), Upstream.scan_err clean]
      exact readLines_succeeds_iff (OpenAI.react_finish_iff c) (OpenAI.react_fail_iff c) () _
  | anthropic c =>
      simp only [Dialect.stream, Anthropic.stream, if_neg (not_le.mpr fine),
        Upstream.scan_err clean]
      exact readLines_succeeds_iff (Anthropic.react_finish_iff c) (Anthropic.react_fail_iff c) 0 _

end Gateway.Providers
