import InferenceGateway.Breaker.Custody
import InferenceGateway.Breaker.Slots
import InferenceGateway.Config.Config

/-! Recovery of a half-open breaker under any interleaving of requests and prober rounds.
As long as no outcome of a half-open probe goes unrecorded, a breaker whose slots are all
taken has a probe still out that will report. -/
namespace Gateway.Breaker
open Gateway.Providers Gateway.Retry Interaction
open Interaction.Program hiding pure perform

abbrev GatewayPool := Pool Op Op.Reply (Option Admission) Unit World

variable {e : Engine} {pool next : GatewayPool} {move : Move Job Input}

/-- A process that has been let through by the breaker `k`, has not reported yet and has
not ended. -/
def InProgress (k : String) (p : Process Op Op.Reply (Option Admission) Unit) : Prop :=
  (∃ a, p.state = some a ∧ a.key = k) ∧ ∃ op next, p.program = .request op next

/-- Half-open with no slot left while no admitted call is in progress: Ready and Allow
stay false and the prober skips the breaker. -/
def Wedged (pool : GatewayPool) (k : String) : Prop :=
  ∃ b, pool.shared.registry.breakers k = some b ∧ b.state = .halfOpen ∧ b.halfOpenAllowed = 0 ∧
    ∀ p ∈ pool.processes, ¬ InProgress k p

/-- The condition on one step: a call admitted in its breaker's current half-open period
and not yet recorded is not given an outcome that is never recorded. -/
def reports (e : Engine) (pool : GatewayPool) : Move Job Input → Bool
  | .start _ => true
  | .act i input =>
      match pool.processes[i]? with
      | some ⟨.request op _, some a⟩ =>
          let probing := decide (a.period = pool.shared.entered a.key) &&
            (pool.shared.registry.breakers a.key).any fun b => decide (b.state = .halfOpen)
          !(probing && unrecorded e ⟨op, (pool.shared.serve input op).1⟩)
      | _ => true

/-- The processes holding an admission of one period of one breaker. -/
def out (processes : List (Process Op Op.Reply (Option Admission) Unit)) (a : Admission) : Nat :=
  processes.countP fun p => decide (p.state = some a)

/-- Every breaker runs under the registry's configuration and is metered by the admissions
of its current period. -/
structure Conserved (cfg : Config) (pool : GatewayPool) : Prop where
  shared : pool.shared.registry.cfg = cfg
  each : ∀ k b, pool.shared.registry.breakers k = some b → b.cfg = cfg ∧
    b.Metered (out pool.processes ⟨k, pool.shared.entered k⟩)

theorem out_set {processes : List (Process Op Op.Reply (Option Admission) Unit)} {i : Nat}
    {old : Process Op Op.Reply (Option Admission) Unit} (found : processes[i]? = some old)
    (new : Process Op Op.Reply (Option Admission) Unit) (a : Admission) :
    out (processes.set i new) a + (if old.state = some a then 1 else 0) =
      out processes a + (if new.state = some a then 1 else 0) := by
  obtain ⟨bound, here⟩ := List.getElem?_eq_some_iff.mp found
  have count := List.countP_set (p := fun p => decide (p.state = some a)) (a := new) bound
  rw [here] at count
  have positive : old.state = some a → 0 < out processes a := by
    intro holds
    exact List.countP_pos_iff.mpr ⟨old, List.mem_of_getElem? found, by simpa using holds⟩
  unfold out at positive ⊢
  rw [count]
  by_cases holds : old.state = some a
  · have := positive holds
    simp only [holds, decide_true, if_true, decide_eq_true_eq]
    omega
  · simp only [holds, decide_false, Bool.false_eq_true, if_false, decide_eq_true_eq]
    omega

theorem get_metered {cfg : Config} (h : Conserved cfg pool) (name model : String) :
    (pool.shared.registry.get name model).cfg = cfg ∧
      (pool.shared.registry.get name model).Metered
        (out pool.processes ⟨key name model, pool.shared.entered (key name model)⟩) := by
  unfold Registry.get
  cases hb : pool.shared.registry.breakers (key name model) with
  | none =>
      refine ⟨h.shared, ?_⟩
      exact newBreaker_metered name model _
  | some b => exact h.each _ b hb

theorem out_set_of_kept {processes : List (Process Op Op.Reply (Option Admission) Unit)} {i : Nat}
    {old : Process Op Op.Reply (Option Admission) Unit} (found : processes[i]? = some old)
    (new : Process Op Op.Reply (Option Admission) Unit) {a : Admission} (kept : old.state = some a → new.state = some a) :
    out processes a ≤ out (processes.set i new) a := by
  have change := out_set found new a
  by_cases holds : old.state = some a
  · simp only [holds, kept holds, if_true] at change
    omega
  · simp only [holds, if_false] at change
    omega

/-- A step that leaves a breaker and its period alone keeps it metered, unless it drops an
admission of the current period. -/
theorem Conserved.frame {cfg : Config} (h : Conserved cfg pool) {i : Nat}
    {old new : Process Op Op.Reply (Option Admission) Unit}
    (found : pool.processes[i]? = some old) {k : String} {b : Breaker}
    (here : pool.shared.registry.breakers k = some b)
    (kept : b.state = .halfOpen → old.state = some ⟨k, pool.shared.entered k⟩ →
      new.state = some ⟨k, pool.shared.entered k⟩) :
    b.cfg = cfg ∧ b.Metered (out (pool.processes.set i new) ⟨k, pool.shared.entered k⟩) := by
  obtain ⟨same, metered⟩ := h.each k b here
  refine ⟨same, ?_⟩
  intro half
  have more := out_set_of_kept found new (kept half)
  exact metered.mono (Int.ofNat_le.mpr more) half

/-- A breaker method that is not Allow, by a process that may only drop what it held of
this very breaker. -/
theorem Conserved.method {cfg : Config} (h : Conserved cfg pool) {i : Nat}
    {old new : Process Op Op.Reply (Option Admission) Unit}
    (found : pool.processes[i]? = some old) {name model : String} {method : Breaker → Breaker}
    (own : ∀ a, old.state = some a → new.state = some a ∨ a.key = key name model)
    (result : ∀ b, b.cfg = cfg → b.Metered (out pool.processes
        ⟨key name model, pool.shared.entered (key name model)⟩) →
      (method b).cfg = cfg ∧ (method b).Metered (out (pool.processes.set i new)
        ⟨key name model, pool.shared.entered (key name model)⟩)) :
    Conserved cfg ⟨pool.shared.update name model method, pool.processes.set i new⟩ := by
  refine ⟨h.shared, ?_⟩
  intro k b' here
  simp only [World.update, Registry.breakers_update] at here
  by_cases same : k = key name model
  · subst same
    rw [if_pos rfl] at here
    cases here
    obtain ⟨config, metered⟩ := get_metered h name model
    exact result _ config metered
  · rw [if_neg same] at here
    apply h.frame found here
    intro _ holds
    rcases own _ holds with kept | other
    · exact kept
    · exact absurd other same

theorem out_set_self {processes : List (Process Op Op.Reply (Option Admission) Unit)} {i : Nat}
    {old new : Process Op Op.Reply (Option Admission) Unit} (found : processes[i]? = some old)
    {a : Admission} (free : old.state = none) (holds : new.state = some a) :
    out (processes.set i new) a = out processes a + 1 := by
  have change := out_set found new a
  simpa [free, holds] using change

/-- Whatever a process drops, it is one admission at most. -/
theorem out_le_out_set {processes : List (Process Op Op.Reply (Option Admission) Unit)} {i : Nat}
    {old : Process Op Op.Reply (Option Admission) Unit} (found : processes[i]? = some old)
    (new : Process Op Op.Reply (Option Admission) Unit) (a : Admission) :
    out processes a ≤ out (processes.set i new) a + 1 := by
  have change := out_set found new a
  split at change <;> split at change <;> omega

/-- Looking a breaker up, by a process that keeps what it holds. -/
theorem Conserved.lookup {cfg : Config} (h : Conserved cfg pool) {i : Nat}
    {old new : Process Op Op.Reply (Option Admission) Unit}
    (found : pool.processes[i]? = some old) (name model : String) (kept : new.state = old.state) :
    Conserved cfg ⟨pool.shared.update name model id, pool.processes.set i new⟩ := by
  refine h.method found ?_ ?_
  · intro a same
    exact .inl (kept.trans same)
  · intro b config metered
    refine ⟨config, metered.mono (Int.ofNat_le.mpr (out_set_of_kept found _ ?_))⟩
    intro same
    exact kept.trans same

/-- RecordSuccess by a process that gives up what it holds of this breaker. -/
theorem Conserved.recordSuccess {cfg : Config} (h : Conserved cfg pool) {i : Nat}
    {old new : Process Op Op.Reply (Option Admission) Unit}
    (found : pool.processes[i]? = some old) {name model : String} (now : Int)
    (own : ∀ a, old.state = some a → a.key = key name model) :
    Conserved cfg ⟨pool.shared.update name model (·.recordSuccess now), pool.processes.set i new⟩ := by
  refine h.method found (fun a same => .inr (own a same)) ?_
  intro b config metered
  refine ⟨recordSuccess_cfg.trans config, (recordSuccess_metered metered).mono ?_⟩
  have atMost := Int.ofNat_le.mpr (out_le_out_set found new
    ⟨key name model, pool.shared.entered (key name model)⟩)
  push_cast at atMost
  omega

/-- Allow by a process that holds nothing: a grant is matched by what it now holds. -/
theorem Conserved.allow {cfg : Config} (probes : 1 ≤ cfg.halfOpenProbes) (h : Conserved cfg pool)
    {i : Nat} {old new : Process Op Op.Reply (Option Admission) Unit}
    (found : pool.processes[i]? = some old) (free : old.state = none) {name model : String}
    {now : Int} (granted : (pool.shared.allow name model now).1 = true → new.state =
      some ⟨key name model, (pool.shared.allow name model now).2.entered (key name model)⟩) :
    Conserved cfg ⟨(pool.shared.allow name model now).2, pool.processes.set i new⟩ := by
  obtain ⟨config, metered⟩ := get_metered h name model
  refine ⟨h.shared, ?_⟩
  intro k b' here
  simp only [World.allow, Registry.breakers_update] at here granted ⊢
  by_cases same : k = key name model
  · subst same
    rw [if_pos rfl] at here
    cases here
    refine ⟨allow_cfg.trans config, ?_⟩
    by_cases fresh : (pool.shared.registry.get name model).reopens now
    · obtain ⟨ok, started⟩ := allow_metered_of_reopens (by rw [config]; exact probes) fresh
      have holds := granted ok
      rw [out_set_self found free holds]
      exact started.mono (by omega)
    · have unchanged : ¬ ((pool.shared.registry.get name model).state = .opened ∧
          (pool.shared.registry.get name model).cooldownElapsed now = true) := fresh
      obtain ⟨grant, refuse⟩ := allow_metered metered fresh
      rw [if_neg unchanged] at granted ⊢
      cases ok : ((pool.shared.registry.get name model).allow now).1 with
      | true =>
          rw [out_set_self found free (granted ok)]
          exact grant ok
      | false =>
          have more : out pool.processes ⟨key name model, pool.shared.entered (key name model)⟩ ≤
              out (pool.processes.set i new)
                ⟨key name model, pool.shared.entered (key name model)⟩ := by
            apply out_set_of_kept found
            rw [free]
            nofun
          exact (refuse ok).mono (Int.ofNat_le.mpr more)
  · rw [if_neg same] at here
    have period : (if (pool.shared.registry.get name model).state = .opened ∧
          (pool.shared.registry.get name model).cooldownElapsed now = true then
        Function.update pool.shared.entered (key name model)
          (pool.shared.entered (key name model) + 1) else pool.shared.entered) k =
        pool.shared.entered k := by
      split
      · exact Function.update_of_ne same _ _
      · rfl
    rw [period]
    apply h.frame found here
    intro _ holds
    rw [free] at holds
    cases holds

theorem Conserved.start {cfg : Config} (h : Conserved cfg pool) (program : EngineM Unit) :
    Conserved cfg { pool with processes := pool.processes ++ [⟨program, none⟩] } := by
  refine ⟨h.shared, ?_⟩
  intro k b here
  have same : out (pool.processes ++ [⟨program, none⟩]) ⟨k, pool.shared.entered k⟩ =
      out pool.processes ⟨k, pool.shared.entered k⟩ := by
    simp [out, List.countP_append]
  obtain ⟨config, metered⟩ := h.each k b here
  exact ⟨config, by rw [same]; exact metered⟩

/-- An operation other than a breaker method: the world is unchanged and the condition on
the step keeps every admission that matters. -/
theorem Conserved.quiet {cfg : Config} (h : Conserved cfg pool) {i : Nat} {input : Input} {op : Op}
    {continue_ : op.Reply → EngineM Unit} {held : Option Admission}
    (found : pool.processes[i]? = some ⟨.request op continue_, held⟩)
    (spoken : reports e pool (.act i input) = true) (program : EngineM Unit) :
    Conserved cfg ⟨pool.shared, pool.processes.set i
      ⟨program, keep e held ⟨op, (pool.shared.serve input op).1⟩⟩⟩ := by
  refine ⟨h.shared, ?_⟩
  intro k b here
  apply h.frame found here
  intro half holds
  change held = _ at holds
  subst holds
  have recorded : unrecorded e ⟨op, (pool.shared.serve input op).1⟩ = false := by
    simp only [reports, found, decide_true, Bool.true_and, Bool.not_eq_true',
      Bool.and_eq_false_iff] at spoken
    rcases spoken with down | recorded
    · rw [here] at down
      simp [half] at down
    · exact recorded
  change keep e _ _ = _
  unfold keep
  rw [recorded]
  rfl

theorem Conserved.step {cfg : Config} (probes : 1 ≤ cfg.halfOpenProbes) (h : Conserved cfg pool)
    (disciplined : (gateway e).Disciplined Returned pool) (spoken : reports e pool move = true)
    (moved : (gateway e).step pool move = some next) : Conserved cfg next := by
  cases move with
  | start job =>
      cases moved
      exact h.start _
  | act i input =>
      obtain ⟨op, continue_, held, found, rfl⟩ := System.act_cases moved
      have legal : ∀ r, (custody e).legal held ⟨op, r⟩ := fun r =>
        (disciplined _ (List.mem_of_getElem? found) r).1
      cases op with
      | allow name model =>
          refine h.allow probes found (legal true) ?_
          intro granted
          change (custody e).advance _ held ⟨.allow name model,
            (pool.shared.allow name model input.clock.recordedAt).1⟩ = _
          rw [granted]
          rfl
      | ready name model => exact h.lookup found name model rfl
      | state name model => exact h.lookup found name model rfl
      | recordSuccess name model => exact h.recordSuccess found _ (legal ())
      | recordFailure name model =>
          refine h.method found ?_ ?_
          · intro a same
            exact .inr (legal () a same)
          · intro b config metered
            exact ⟨recordFailure_cfg.trans config, recordFailure_metered⟩
      | snapshot => exact h.quiet found spoken _
      | healthCheck name => exact h.quiet found spoken _
      | complete name req => exact h.quiet found spoken _
      | stream name req => exact h.quiet found spoken _
      | onDelta name model d => exact h.quiet found spoken _
      | intn n => exact h.quiet found spoken _
      | int63n n => exact h.quiet found spoken _
      | sleep d => exact h.quiet found spoken _
      | ctxErr => exact h.quiet found spoken _

/-- The gateway before its first request. -/
def initial (cfg : Config) : GatewayPool := ⟨{ registry := { cfg } }, []⟩

theorem initial_conserved (cfg : Config) : Conserved cfg (initial cfg) :=
  ⟨rfl, fun _ _ here => by cases here⟩

/-- A breaker that is metered and has nobody out is not wedged. -/
theorem Conserved.not_wedged {cfg : Config} (h : Conserved cfg pool)
    (disciplined : (gateway e).Disciplined Returned pool) (k : String) : ¬ Wedged pool k := by
  rintro ⟨b, here, half, exhausted, nobody⟩
  obtain ⟨-, metered⟩ := h.each k b here
  obtain ⟨-, wins, covered⟩ := metered half
  have someOut : 0 < out pool.processes ⟨k, pool.shared.entered k⟩ := by
    omega
  obtain ⟨p, member, holds⟩ := List.countP_pos_iff.mp someOut
  have holds' : p.state = some ⟨k, pool.shared.entered k⟩ := by simpa using holds
  apply nobody p member
  refine ⟨⟨_, holds', rfl⟩, ?_⟩
  have follows := disciplined p member
  cases hp : p.program with
  | pure a =>
      rw [hp, holds'] at follows
      cases follows
  | request op next => exact ⟨op, next, rfl⟩

/-- The gateway never wedges a breaker: for every accepted configuration and every run in
which each call admitted during a half-open period gets an outcome that is recorded, no
state reached has a half-open breaker without slots and without a call in progress. -/
theorem breaker_never_wedges {isPrint : Char → Bool} (cfg : Gateway.Config.Accepted isPrint)
    (providers : String → Option Provider)
    (reached : (gateway ⟨providers, cfg.retryConfig⟩).Reaches
      (fun pool move => reports ⟨providers, cfg.retryConfig⟩ pool move = true)
      (initial cfg.breakerConfig) pool) (k : String) : ¬ Wedged pool k := by
  have budget := cfg.budget_pos
  have both : Conserved cfg.breakerConfig pool ∧
      (gateway ⟨providers, cfg.retryConfig⟩).Disciplined Returned pool := by
    apply reached.invariant
    · exact ⟨initial_conserved _, nofun⟩
    · rintro pool move next ⟨conserved, disciplined⟩ spoken moved
      exact ⟨conserved.step cfg.halfOpenProbes_pos disciplined spoken moved,
        disciplined.step (job_follows budget) moved⟩
  exact both.1.not_wedged both.2 k

/-- A configuration with one half-open probe that trips on the first failure. -/
def oneProbe : Gateway.Config.Accepted (fun _ => true) where
  server := ⟨":8080", 1, 1, 1, 1⟩
  redis := ⟨"redis:6379", 1⟩
  postgres := ⟨"DATABASE_URL", 1⟩
  providers := []
  breaker := ⟨.finite 1, 1, 1000000000, 1, 1, 1, 1⟩
  retry := ⟨1, 1, 1⟩
  cache := ⟨⟨false, 0⟩, ⟨false, .finite 0, ⟨0, 0⟩, 0, 0⟩, 0⟩
  rateLimit := ⟨1, 0⟩
  ledger := ⟨1, 1, 1⟩
  observability := ⟨"info"⟩
  accepted := by decide +kernel

/-- Two requests for one candidate: the first finds the provider down and trips the
breaker, the second is let through as the only probe; its call ends in `probe`. -/
def tripThenProbe (probe : CompleteReply) (steps : Nat) : List (Move Job Input) :=
  let job : Job := .execute [⟨[⟨"a", "m", 1⟩]⟩] { model := "m", messages := [] }
  let world (now : Int) (reply : CompleteReply) : Input :=
    ⟨⟨now, now, now⟩, calm (fun _ => reply) (fun _ => ⟨[], none, 0⟩) []⟩
  let down : CompleteReply := ⟨.error (.api { statusCode := 503, message := "down" }), 0⟩
  .start job :: List.replicate 6 (.act 0 (world 0 down)) ++
    .start job :: List.replicate steps (.act 1 (world 5000000000 probe))

/-- The state of the one breaker after a schedule, and whether every process has ended. -/
def probed (pool : GatewayPool) : Option (State × Int) × Bool :=
  ((pool.shared.registry.breakers (key "a" "m")).map fun b => (b.state, b.halfOpenAllowed),
    pool.processes.all fun p => p.program.isPure)

theorem probed_halfOpen {pool : GatewayPool} {done : Bool} (h : probed pool = (some (.halfOpen, 0), done)) :
    ∃ b, pool.shared.registry.breakers (key "a" "m") = some b ∧ b.state = .halfOpen ∧
      b.halfOpenAllowed = 0 := by
  obtain ⟨first, -⟩ := Prod.mk.inj h
  obtain ⟨b, here, same⟩ := Option.map_eq_some_iff.mp first
  obtain ⟨half, zero⟩ := Prod.mk.inj same
  exact ⟨b, here, half, zero⟩

/-- With the probe's call still out the breaker has no slot left and is not wedged. -/
theorem probe_out_not_wedged :
    let engine : Engine := ⟨(Engine.uniform ⟨1, 1, 1⟩).providers, oneProbe.retryConfig⟩
    ∃ pool, (gateway engine).Reaches (fun pool move => reports engine pool move = true)
        (initial oneProbe.breakerConfig) pool ∧
      (∃ b, pool.shared.registry.breakers (key "a" "m") = some b ∧ b.state = .halfOpen ∧
        b.halfOpenAllowed = 0) ∧ ¬ Wedged pool (key "a" "m") := by
  intro engine
  let schedule := tripThenProbe ⟨.error (.other "unused"), 0⟩ 3
  have final : ((gateway engine).run (reports engine) (initial oneProbe.breakerConfig) schedule).map
      probed = some (some (.halfOpen, 0), false) := by
    decide +kernel
  obtain ⟨pool, ran, state⟩ := Option.map_eq_some_iff.mp final
  have reached := System.Reaches.of_run ran
  exact ⟨pool, reached, probed_halfOpen state, breaker_never_wedges oneProbe _ reached _⟩

/-- The only probe ends in a refused dial: Terminal, so nothing is recorded, and the
breaker is left half-open with no slot and nobody to give one back. -/
theorem refused_probe_wedges :
    let engine : Engine := ⟨(Engine.uniform ⟨1, 1, 1⟩).providers, oneProbe.retryConfig⟩
    ∃ pool, (gateway engine).Reaches (fun _ _ => True) (initial oneProbe.breakerConfig) pool ∧
      Wedged pool (key "a" "m") := by
  intro engine
  let schedule := tripThenProbe ⟨.error (.other "connection refused"), 0⟩ 4
  have final : ((gateway engine).run (fun _ _ => true) (initial oneProbe.breakerConfig) schedule).map
      probed = some (some (.halfOpen, 0), true) := by
    decide +kernel
  obtain ⟨pool, ran, state⟩ := Option.map_eq_some_iff.mp final
  obtain ⟨b, here, half, zero⟩ := probed_halfOpen state
  have reached := System.Reaches.of_run ran
  simp only at reached
  refine ⟨pool, reached, b, here, half, zero, ?_⟩
  rintro p member ⟨-, op, next, pending⟩
  have ended := List.all_eq_true.mp (Prod.mk.inj state).2 p member
  rw [pending] at ended
  cases ended

end Gateway.Breaker
