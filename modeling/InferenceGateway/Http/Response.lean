import Mathlib

/-! HTTP responses as sequences of calls on a response writer. The first call that needs
the status fixes it together with the header; later status calls change nothing. -/
namespace Http

inductive Call where
  | setHeader (name value : String)
  | writeHeader (status : Int)
  | write (text : String)
  | flush
  deriving DecidableEq

/-- A write may fail; the other calls report nothing. -/
@[reducible] def Call.Reply : Call → Type
  | .write _ => Option String
  | .setHeader _ _ | .writeHeader _ | .flush => Unit

abbrev Header := String → Option String

structure Response where
  header : Header := fun _ => none
  committed : Option (Int × Header) := none
  body : String := ""

def Response.commit (r : Response) (status : Int) : Response :=
  match r.committed with
  | some _ => r
  | none => { r with committed := some (status, r.header) }

/-- A body or a flush without a status commits 200. -/
def Response.apply (r : Response) : Call → Response
  | .setHeader name value => { r with header := Function.update r.header name (some value) }
  | .writeHeader status => r.commit status
  | .write text => { r.commit 200 with body := r.body ++ text }
  | .flush => r.commit 200

def Response.applyAll (r : Response) (calls : List Call) : Response := calls.foldl apply r

def Call.text : Call → String
  | .write text => text
  | .setHeader _ _ | .writeHeader _ | .flush => ""

def written (calls : List Call) : String := String.join (calls.map Call.text)

theorem written_cons (c : Call) (calls : List Call) : written (c :: calls) = c.text ++ written calls := by
  rw [written, List.map_cons, String.join_cons]
  rfl

theorem written_append (first second : List Call) :
    written (first ++ second) = written first ++ written second := by
  rw [written, List.map_append, String.join_append]
  rfl

theorem Response.applyAll_append (r : Response) (first second : List Call) :
    r.applyAll (first ++ second) = (r.applyAll first).applyAll second := List.foldl_append

theorem Response.commit_body (r : Response) (status : Int) : (r.commit status).body = r.body := by
  unfold commit
  split <;> rfl

theorem Response.commit_of_committed {r : Response} {sent : Int × Header} {status : Int}
    (h : r.committed = some sent) : r.commit status = r := by
  simp only [commit, h]

theorem Response.apply_body (r : Response) (c : Call) : (r.apply c).body = r.body ++ c.text := by
  cases c with
  | setHeader name value => simp [apply, Call.text]
  | writeHeader status => simp [apply, Call.text, commit_body]
  | write text => rfl
  | flush => simp [apply, Call.text, commit_body]

theorem Response.apply_committed {r : Response} {sent : Int × Header} (c : Call)
    (h : r.committed = some sent) : (r.apply c).committed = some sent := by
  cases c with
  | setHeader name value => exact h
  | writeHeader status => rw [apply, commit_of_committed h, h]
  | write text => simp only [apply, commit_of_committed h, h]
  | flush => rw [apply, commit_of_committed h, h]

theorem Response.applyAll_body (r : Response) (calls : List Call) :
    (r.applyAll calls).body = r.body ++ written calls := by
  induction calls generalizing r with
  | nil => simp [applyAll, written]
  | cons c calls ih =>
      have rest := ih (r.apply c)
      rw [apply_body, String.append_assoc, ← written_cons] at rest
      exact rest

/-- What has been sent stays as it is. -/
theorem Response.applyAll_committed {r : Response} {sent : Int × Header} (calls : List Call)
    (h : r.committed = some sent) : (r.applyAll calls).committed = some sent := by
  induction calls generalizing r with
  | nil => exact h
  | cons c calls ih => exact ih (apply_committed c h)

end Http
