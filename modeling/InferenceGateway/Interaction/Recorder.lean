import InferenceGateway.Interaction.Pool

/-! Pools whose processes keep a record of what they did and when. What one process does is a
part of a run of its job; what any process ever did stays on record. -/
namespace Interaction
namespace Program
variable {E : Type} {R : E → Type} {α : Type}

/-- The program gets as far as `q` through the events. -/
inductive Leads (p : Program E R α) : List (Event E R) → Program E R α → Prop
  | here : Leads p [] p
  | step {tr : List (Event E R)} {e : E} {next : R e → Program E R α} (r : R e) :
      Leads p tr (.request e next) → Leads p (tr ++ [⟨e, r⟩]) (next r)

/-- Every event of the trace is legal where it happens, in surroundings that stay the same. -/
def Legal {C M : Type} (P : Protocol E R C M) (c : C) : M → List (Event E R) → Prop
  | _, [] => True
  | m, ev :: tr => P.legal m ev ∧ Legal P c (P.advance c m ev) tr

theorem Legal.concat {C M : Type} {P : Protocol E R C M} {c : C} {m : M} {tr : List (Event E R)}
    {ev : Event E R} (h : Legal P c m tr) (last : P.legal (tr.foldl (P.advance c) m) ev) :
    Legal P c m (tr ++ [ev]) := by
  induction tr generalizing m with
  | nil => exact ⟨last, trivial⟩
  | cons first tr ih => exact ⟨h.1, ih h.2 last⟩

theorem Leads.legal {C M : Type} {P : Protocol E R C M} {final : α → M → Prop} {p q : Program E R α}
    {tr : List (Event E R)} {m : M} (c : C) (leads : p.Leads tr q) (h : p.Follows P final m) :
    Legal P c m tr ∧ q.Follows P final (tr.foldl (P.advance c) m) := by
  induction leads with
  | here => exact ⟨trivial, h⟩
  | step r _ ih =>
      obtain ⟨past, here⟩ := ih
      refine ⟨past.concat (here r).1, ?_⟩
      rw [List.foldl_append]
      exact (here r).2 c

/-- The protocol that only says what may be asked. -/
def allowing (allowed : E → Prop) : Protocol E R Unit Unit where
  advance _ _ _ := ()
  legal _ ev := allowed ev.1

theorem Within.of_allowing [∀ e, Nonempty (R e)] {allowed : E → Prop} {final : α → Unit → Prop}
    {p : Program E R α} (h : p.Follows (allowing allowed) final ()) : p.Within allowed := by
  induction p with
  | pure a => trivial
  | request e next ih =>
      obtain ⟨r⟩ : Nonempty (R e) := inferInstance
      exact ⟨(h r).1, fun r => ih r ((h r).2 ())⟩

theorem Leads.allowed {allowed : E → Prop} {final : α → Unit → Prop} {p q : Program E R α}
    {tr : List (Event E R)} (leads : p.Leads tr q) (h : p.Follows (allowing allowed) final ()) :
    (∀ ev ∈ tr, allowed ev.1) ∧ q.Follows (allowing allowed) final () := by
  induction leads with
  | here => exact ⟨nofun, h⟩
  | step r _ ih =>
      obtain ⟨past, here⟩ := ih
      refine ⟨?_, (here r).2 ()⟩
      intro ev member
      rcases List.mem_append.mp member with early | last
      · exact past ev early
      · rw [List.mem_singleton.mp last]
        exact (here r).1

end Program

/-- The protocol whose state is the record: every event with its time. -/
def recorder {E : Type} {R : E → Type} {S T : Type} (time : S → T) :
    Protocol E R S (List (T × Event E R)) where
  advance s past ev := past ++ [(time s, ev)]
  legal _ _ := True

section
variable {E : Type} {R : E → Type} {α S J I T : Type}

/-- Jobs over a shared state whose processes keep records. -/
def System.recording (program : J → Program E R α) (serve : S → I → (e : E) → R e × S)
    (time : S → T) : System E R (List (T × Event E R)) α S J I where
  program := program
  idle := []
  serve := serve
  protocol := recorder time

abbrev RecordPool (E : Type) (R : E → Type) (α S T : Type) := Pool E R (List (T × Event E R)) α S

variable (program : J → Program E R α)

/-- The process is one of the job, and its record says how far it has got. -/
def Process.Serves (job : J) (p : Process E R (List (T × Event E R)) α) : Prop :=
  (program job).Leads (p.state.map Prod.snd) p.program

/-- Some process of the job has the event on record. -/
def Recorded (pool : RecordPool E R α S T) (job : J) (entry : T × Event E R) : Prop :=
  ∃ p ∈ pool.processes, p.Serves program job ∧ entry ∈ p.state

/-- Some process has the event on record. -/
def OnRecord (pool : RecordPool E R α S T) (entry : T × Event E R) : Prop :=
  ∃ p ∈ pool.processes, entry ∈ p.state

def Traced (pool : RecordPool E R α S T) : Prop :=
  ∀ p ∈ pool.processes, ∃ job, p.Serves program job

variable {program} {serve : S → I → (e : E) → R e × S} {time : S → T}
  {pool next : RecordPool E R α S T} {move : Move J I} {job : J} {entry : T × Event E R}

theorem Process.Serves.act {e : E} {continue_ : R e → Program E R α} {past : List (T × Event E R)}
    (h : Process.Serves program job ⟨.request e continue_, past⟩) (t : T) (r : R e) :
    Process.Serves program job ⟨continue_ r, past ++ [(t, ⟨e, r⟩)]⟩ := by
  have longer := Program.Leads.step r h
  unfold Process.Serves
  rwa [List.map_append]

/-- What a step does to the records: a job is started, or one event is added to the record of
one process. -/
theorem recording_cases
    (moved : (System.recording program serve time).step pool move = some next) :
    (∃ job, next = { pool with processes := pool.processes ++ [⟨program job, []⟩] }) ∨
    ∃ i input e continue_ past, pool.processes[i]? = some ⟨.request e continue_, past⟩ ∧
      next = ⟨(serve pool.shared input e).2, pool.processes.set i
        ⟨continue_ (serve pool.shared input e).1,
          past ++ [(time (serve pool.shared input e).2, ⟨e, (serve pool.shared input e).1⟩)]⟩⟩ := by
  cases move with
  | start job =>
      cases moved
      exact .inl ⟨job, rfl⟩
  | act i input =>
      obtain ⟨e, continue_, past, found, rfl⟩ := System.act_cases moved
      exact .inr ⟨i, input, e, continue_, past, found, rfl⟩

theorem Traced.step (h : Traced program pool)
    (moved : (System.recording program serve time).step pool move = some next) :
    Traced program next := by
  obtain ⟨job, rfl⟩ | ⟨i, input, e, continue_, past, found, rfl⟩ := recording_cases moved
  · intro p member
    rcases List.mem_append.mp member with old | new
    · exact h p old
    · rw [List.mem_singleton.mp new]
      exact ⟨job, .here⟩
  · intro p member
    rcases List.mem_or_eq_of_mem_set member with old | rfl
    · exact h p old
    · obtain ⟨job, serves⟩ := h _ (List.mem_of_getElem? found)
      exact ⟨job, serves.act _ _⟩

/-- What is on record stays on record. -/
theorem Recorded.step (h : Recorded program pool job entry)
    (moved : (System.recording program serve time).step pool move = some next) :
    Recorded program next job entry := by
  obtain ⟨p, member, serves, recorded⟩ := h
  obtain ⟨job', rfl⟩ | ⟨i, input, e, continue_, past, found, rfl⟩ := recording_cases moved
  · exact ⟨p, List.mem_append_left _ member, serves, recorded⟩
  · obtain ⟨j, inside, rfl⟩ := List.getElem_of_mem member
    by_cases same : i = j
    · subst same
      have here : pool.processes[i] = ⟨.request e continue_, past⟩ := by
        rw [List.getElem?_eq_getElem inside] at found
        exact Option.some.inj found
      rw [here] at serves recorded
      refine ⟨_, List.mem_set inside _, serves.act _ _, ?_⟩
      exact List.mem_append_left _ recorded
    · refine ⟨pool.processes[j], ?_, serves, recorded⟩
      rw [List.mem_iff_getElem?]
      exact ⟨j, by rw [List.getElem?_set_ne same, List.getElem?_eq_getElem inside]⟩

/-- The event of a step is put on record. -/
theorem recorded_act (time : S → T) (traced : Traced program pool) {i : Nat} {e : E}
    {continue_ : R e → Program E R α} {past : List (T × Event E R)} (s : S) (r : R e)
    (found : pool.processes[i]? = some ⟨.request e continue_, past⟩) :
    ∃ job, Recorded program ⟨s, pool.processes.set i
      ⟨continue_ r, past ++ [(time s, ⟨e, r⟩)]⟩⟩ job (time s, ⟨e, r⟩) := by
  obtain ⟨job, serves⟩ := traced _ (List.mem_of_getElem? found)
  refine ⟨job, _, List.mem_set (List.getElem?_eq_some_iff.mp found).1 _, serves.act _ _, ?_⟩
  simp

/-- A process that asks for something can be served; the others stay where they are. -/
theorem recording_act (serve : S → I → (e : E) → R e × S) (time : S → T)
    (traced : Traced program pool) {i : Nat} {e : E}
    {continue_ : R e → Program E R α} {past : List (T × Event E R)}
    (found : pool.processes[i]? = some ⟨.request e continue_, past⟩) (input : I) :
    ∃ next job, (System.recording program serve time).step pool (.act i input) = some next ∧
      next.shared = (serve pool.shared input e).2 ∧
      (∀ j, i ≠ j → next.processes[j]? = pool.processes[j]?) ∧
      Recorded program next job
        (time (serve pool.shared input e).2, ⟨e, (serve pool.shared input e).1⟩) := by
  obtain ⟨job, recorded⟩ := recorded_act time traced (serve pool.shared input e).2 _ found
  refine ⟨_, job, ?_, rfl, ?_, recorded⟩
  · simp only [System.step, System.recording, found]
    rfl
  · intro j apart
    exact List.getElem?_set_ne apart

theorem onRecord_start (h : OnRecord { pool with
    processes := pool.processes ++ [⟨program job, []⟩] } entry) : OnRecord pool entry := by
  obtain ⟨p, member, recorded⟩ := h
  rcases List.mem_append.mp member with old | new
  · exact ⟨p, old, recorded⟩
  · rw [List.mem_singleton.mp new] at recorded
    cases recorded

theorem onRecord_act {i : Nat} {e : E} {continue_ : R e → Program E R α}
    {past : List (T × Event E R)} {s : S} {q : Program E R α} {new : T × Event E R}
    (found : pool.processes[i]? = some ⟨.request e continue_, past⟩)
    (h : OnRecord ⟨s, pool.processes.set i ⟨q, past ++ [new]⟩⟩ entry) :
    OnRecord pool entry ∨ entry = new := by
  obtain ⟨p, member, recorded⟩ := h
  rcases List.mem_or_eq_of_mem_set member with old | rfl
  · exact .inl ⟨p, old, recorded⟩
  · rcases List.mem_append.mp recorded with early | last
    · exact .inl ⟨_, List.mem_of_getElem? found, early⟩
    · exact .inr (List.mem_singleton.mp last)

end
end Interaction
