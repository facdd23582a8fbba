import InferenceGateway.Interaction.Protocol

/-! Pools of interaction programs over one shared state. Any number of processes may be
started at any time; a step serves the pending request of any one of them, atomically. -/
namespace Interaction

structure Process (E : Type) (R : E → Type) (M α : Type) where
  program : Program E R α
  state : M

structure Pool (E : Type) (R : E → Type) (M α S : Type) where
  shared : S
  processes : List (Process E R M α)

inductive Move (J I : Type) where
  | start (job : J)
  | act (i : Nat) (input : I)

/-- `serve` answers a request from the shared state and the step's input. The protocol
moves the state of the acting process and sees the shared state the request leaves. -/
structure System (E : Type) (R : E → Type) (M α S J I : Type) where
  program : J → Program E R α
  idle : M
  serve : S → I → (e : E) → R e × S
  protocol : Protocol E R S M

namespace System
variable {E : Type} {R : E → Type} {M α S J I : Type} (sys : System E R M α S J I)

def step (pool : Pool E R M α S) : Move J I → Option (Pool E R M α S)
  | .start job =>
      some { pool with processes := pool.processes ++ [⟨sys.program job, sys.idle⟩] }
  | .act i input =>
      match pool.processes[i]? with
      | some ⟨.request e next, m⟩ =>
          let served := sys.serve pool.shared input e
          some ⟨served.2,
            pool.processes.set i ⟨next served.1, sys.protocol.advance served.2 m ⟨e, served.1⟩⟩⟩
      | _ => none

/-- A schedule, executed as long as every step passes the check. -/
def run (ok : Pool E R M α S → Move J I → Bool) (pool : Pool E R M α S) :
    List (Move J I) → Option (Pool E R M α S)
  | [] => some pool
  | move :: moves =>
      if ok pool move then
        match sys.step pool move with
        | some next => run ok next moves
        | none => none
      else none

/-- The pools reachable by steps that all meet a condition on the pool and the move. -/
inductive Reaches (cond : Pool E R M α S → Move J I → Prop) (first : Pool E R M α S) :
    Pool E R M α S → Prop
  | refl : Reaches cond first first
  | step {pool next : Pool E R M α S} {move : Move J I} : Reaches cond first pool →
      cond pool move → sys.step pool move = some next → Reaches cond first next

variable {sys}

theorem act_cases {pool pool' : Pool E R M α S} {i : Nat} {input : I}
    (h : sys.step pool (.act i input) = some pool') :
    ∃ e next m, pool.processes[i]? = some ⟨.request e next, m⟩ ∧
      pool' = ⟨(sys.serve pool.shared input e).2, pool.processes.set i
        ⟨next (sys.serve pool.shared input e).1, sys.protocol.advance
          (sys.serve pool.shared input e).2 m ⟨e, (sys.serve pool.shared input e).1⟩⟩⟩ := by
  simp only [step] at h
  split at h
  · rename_i e next m found
    exact ⟨e, next, m, found, (Option.some.inj h).symm⟩
  · cases h

theorem Reaches.invariant {cond : Pool E R M α S → Move J I → Prop} {first pool : Pool E R M α S}
    {Inv : Pool E R M α S → Prop} (h : sys.Reaches cond first pool) (initial : Inv first)
    (preserve : ∀ pool move next, Inv pool → cond pool move → sys.step pool move = some next →
      Inv next) : Inv pool := by
  induction h with
  | refl => exact initial
  | step _ ok moved ih => exact preserve _ _ _ ih ok moved

theorem Reaches.mono {cond weaker : Pool E R M α S → Move J I → Prop} {first pool : Pool E R M α S}
    (h : sys.Reaches cond first pool) (weaken : ∀ pool move, cond pool move → weaker pool move) :
    sys.Reaches weaker first pool := by
  induction h with
  | refl => exact .refl
  | step _ ok moved ih => exact .step ih (weaken _ _ ok) moved

/-- A property of one process, kept by its own steps where the pools satisfy an invariant and
the steps the condition. -/
theorem Reaches.process_induction {cond : Pool E R M α S → Move J I → Prop}
    {first pool : Pool E R M α S} {Inv : Pool E R M α S → Prop} {Q : Process E R M α → Prop}
    {i : Nat} {p : Process E R M α} (h : sys.Reaches cond first pool) (initial : Inv first)
    (found : first.processes[i]? = some p) (holds : Q p)
    (preserve : ∀ pool move next, Inv pool → cond pool move → sys.step pool move = some next →
      Inv next)
    (own : ∀ (pool : Pool E R M α S) (input : I) (e : E) (next : R e → Program E R α) (m : M),
      Inv pool → cond pool (.act i input) → Q ⟨.request e next, m⟩ →
      Q ⟨next (sys.serve pool.shared input e).1, sys.protocol.advance
        (sys.serve pool.shared input e).2 m ⟨e, (sys.serve pool.shared input e).1⟩⟩) :
    Inv pool ∧ ∃ p, pool.processes[i]? = some p ∧ Q p := by
  apply h.invariant
  · exact ⟨initial, p, found, holds⟩
  · rintro pool move next ⟨inv, p, found, holds⟩ ok moved
    refine ⟨preserve pool move next inv ok moved, ?_⟩
    cases move with
    | start job =>
        cases moved
        refine ⟨p, ?_, holds⟩
        rw [List.getElem?_append_left (List.getElem?_eq_some_iff.mp found).1]
        exact found
    | act j input =>
        obtain ⟨e, continue_, m, acting, rfl⟩ := act_cases moved
        by_cases same : j = i
        · subst same
          rw [found] at acting
          cases acting
          refine ⟨_, ?_, own pool input e continue_ m inv ok holds⟩
          exact List.getElem?_set_self (List.getElem?_eq_some_iff.mp found).1
        · exact ⟨p, by rw [List.getElem?_set_ne same]; exact found, holds⟩

/-- The same, where the steps of the process need no condition. -/
theorem Reaches.process_invariant {cond : Pool E R M α S → Move J I → Prop}
    {first pool : Pool E R M α S} {Inv : Pool E R M α S → Prop} {Q : Process E R M α → Prop}
    {i : Nat} {p : Process E R M α} (h : sys.Reaches cond first pool) (initial : Inv first)
    (found : first.processes[i]? = some p) (holds : Q p)
    (preserve : ∀ pool move next, Inv pool → cond pool move → sys.step pool move = some next →
      Inv next)
    (own : ∀ (pool : Pool E R M α S) (input : I) (e : E) (next : R e → Program E R α) (m : M),
      Inv pool → Q ⟨.request e next, m⟩ → Q ⟨next (sys.serve pool.shared input e).1,
        sys.protocol.advance (sys.serve pool.shared input e).2 m
          ⟨e, (sys.serve pool.shared input e).1⟩⟩) :
    Inv pool ∧ ∃ p, pool.processes[i]? = some p ∧ Q p := by
  refine h.process_induction initial found holds preserve ?_
  intro pool input e next m inv _ met
  exact own pool input e next m inv met

theorem start_process {pool next : Pool E R M α S} {job : J}
    (moved : sys.step pool (.start job) = some next) :
    next.processes[pool.processes.length]? = some ⟨sys.program job, sys.idle⟩ := by
  cases moved
  exact List.getElem?_concat_length

theorem Reaches.of_run {ok : Pool E R M α S → Move J I → Bool} {first pool : Pool E R M α S}
    {moves : List (Move J I)} (h : sys.run ok first moves = some pool) :
    sys.Reaches (fun pool move => ok pool move = true) first pool := by
  have extend : ∀ moves middle, sys.Reaches (fun pool move => ok pool move = true) first middle →
      sys.run ok middle moves = some pool →
      sys.Reaches (fun pool move => ok pool move = true) first pool := by
    intro moves
    induction moves with
    | nil =>
        intro middle reached done
        cases done
        exact reached
    | cons move moves ih =>
        intro middle reached rest
        simp only [run] at rest
        split at rest
        · rename_i passed
          split at rest
          · rename_i next moved
            exact ih next (.step reached passed moved) rest
          · cases rest
        · cases rest
  exact extend moves first .refl h

/-- Every process follows the protocol from where it stands, and may end in `final` only. -/
def Disciplined (sys : System E R M α S J I) (final : α → M → Prop) (pool : Pool E R M α S) : Prop :=
  ∀ p ∈ pool.processes, p.program.Follows sys.protocol final p.state

theorem Disciplined.step {final : α → M → Prop} {pool next : Pool E R M α S} {move : Move J I}
    (jobs : ∀ job, (sys.program job).Follows sys.protocol final sys.idle)
    (h : sys.Disciplined final pool) (moved : sys.step pool move = some next) :
    sys.Disciplined final next := by
  cases move with
  | start job =>
      cases moved
      intro p member
      rcases List.mem_append.mp member with old | new
      · exact h p old
      · rw [List.mem_singleton.mp new]
        exact jobs job
  | act i input =>
      obtain ⟨e, continue_, m, found, rfl⟩ := act_cases moved
      intro p member
      rcases List.mem_or_eq_of_mem_set member with old | rfl
      · exact h p old
      · have here := h _ (List.mem_of_getElem? found)
        exact (here _).2 _

end System

section Totals
variable {E : Type} {R : E → Type} {M α S G : Type} [AddCommGroup G]

/-- A quantity of the processes' states, summed over the pool. -/
def Pool.total (amount : M → G) (pool : Pool E R M α S) : G :=
  (pool.processes.map fun p => amount p.state).sum

theorem Pool.total_start (amount : M → G) (pool : Pool E R M α S) (p : Process E R M α) :
    Pool.total amount { pool with processes := pool.processes ++ [p] } =
      pool.total amount + amount p.state := by
  simp [Pool.total]

theorem Pool.total_act (amount : M → G) {pool : Pool E R M α S} {i : Nat} {old : Process E R M α}
    (found : pool.processes[i]? = some old) (shared : S) (new : Process E R M α) :
    Pool.total amount ⟨shared, pool.processes.set i new⟩ =
      pool.total amount + (amount new.state - amount old.state) := by
  obtain ⟨bound, here⟩ := List.getElem?_eq_some_iff.mp found
  have inside : i < (pool.processes.map fun p => amount p.state).length := by simpa using bound
  simp only [Pool.total, List.map_set]
  rw [List.sum_set', dif_pos inside]
  simp only [List.getElem_map, here]
  abel

end Totals

section Gathering
variable {E : Type} {R : E → Type} {M α S β : Type}

/-- What the processes' states list, put together. -/
def Pool.gather (items : M → List β) (pool : Pool E R M α S) : List β :=
  pool.processes.flatMap fun p => items p.state

theorem Pool.gather_act (items : M → List β) {pool : Pool E R M α S} {i : Nat}
    {old : Process E R M α} (found : pool.processes[i]? = some old) (shared : S)
    {new : Process E R M α} {extra : List β} (more : items new.state = items old.state ++ extra) :
    (Pool.gather items ⟨shared, pool.processes.set i new⟩).Perm (pool.gather items ++ extra) := by
  obtain ⟨bound, here⟩ := List.getElem?_eq_some_iff.mp found
  have cut : ∃ before after, pool.processes = before ++ pool.processes[i] :: after ∧
      before.length = i ∧ pool.processes.set i new = before ++ new :: after := List.exists_of_set bound
  obtain ⟨before, after, split, -, changed⟩ := cut
  rw [here] at split
  simp only [Pool.gather, changed]
  rw [split]
  simp only [List.flatMap_append, List.flatMap_cons, more, List.append_assoc]
  refine List.Perm.append_left _ (List.Perm.append_left _ ?_)
  exact List.perm_append_comm

end Gathering
end Interaction
