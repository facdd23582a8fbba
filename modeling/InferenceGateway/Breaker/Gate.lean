import InferenceGateway.Breaker.Slots
import InferenceGateway.Breaker.World
import InferenceGateway.Config.Config
import InferenceGateway.Retry.Visits

/-! When provider calls start relative to their breaker's gate. Allow is asked once per
visit of a candidate; every call of the visit relies on that one answer. -/
namespace Gateway.Breaker
open Gateway.Providers Gateway.Retry Interaction
open Interaction.Program hiding pure perform

def Registry.isOpen (r : Registry) (k : String) : Bool :=
  (r.breakers k).any fun b => decide (b.state = .opened)

/-- The shared breakers, with how often each has become open; no operation reads it. -/
structure Gatehouse where
  world : World
  openings : String → Nat := fun _ => 0

def Gatehouse.serve (g : Gatehouse) (input : Input) (op : Op) : op.Reply × Gatehouse :=
  let served := g.world.serve input op
  (served.1,
    { world := served.2
      openings := fun k =>
        if served.2.registry.isOpen k && !g.world.registry.isOpen k then g.openings k + 1
        else g.openings k })

/-- The last Allow a process got true from, and how often that breaker had opened by then. -/
structure Pass where
  key : String
  openings : Nat
  deriving DecidableEq

/-- The breaker key of the provider call an operation starts. -/
def calledKey : Op → Option String
  | .complete name req | .stream name req => some (key name req.model)
  | _ => none

/-- Every provider call is made on a pass to its own breaker, which the last Allow gave. -/
def gate : Protocol Op Op.Reply Gatehouse (Option Pass) where
  advance g held ev :=
    match ev with
    | ⟨.allow name model, true⟩ => some ⟨key name model, g.openings (key name model)⟩
    | ⟨.allow _ _, false⟩ => none
    | _ => held
  legal held ev := ∀ k, calledKey ev.1 = some k → ∃ pass, held = some pass ∧ pass.key = k

/-- The gateway's processes, watched at the gate. -/
def gated (e : Engine) : System Op Op.Reply (Option Pass) Unit Gatehouse Job Input where
  program := Job.program e
  idle := none
  serve := Gatehouse.serve
  protocol := gate

abbrev GatedPool := Pool Op Op.Reply (Option Pass) Unit Gatehouse

variable {e : Engine} {c : Candidate} {req providerReq : CanonicalRequest} {k : String}
  {held : Option Pass}

/-- What the loop of a visit may do: everything but Allow, and calls on its own breaker only. -/
def InVisit (k : String) (op : Op) : Prop :=
  (∀ name model, op ≠ .allow name model) ∧ ∀ k', calledKey op = some k' → k' = k

theorem inVisit_of_wait {op : Op} (wait : op.isWait = true) : InVisit k op := by
  cases op <;> simp_all [Op.isWait, InVisit, calledKey]

theorem waitBefore_within {cfg : Retry.Config} {attempt : Nat} {lastErr : Option CallError} :
    (waitBefore cfg attempt lastErr).Within (InVisit k) :=
  Within.of_runs fun _ _ run _ member => inVisit_of_wait (waitBefore_waits run _ member)

theorem relayDeltas_within {name model : String} {own : Option CallError} {ds : List Delta}
    {usage : Option Usage} {flushed : Bool} :
    (Engine.relayDeltas name model own ds usage flushed).Within (InVisit k) := by
  induction ds generalizing usage flushed with
  | nil => exact Within.pure _
  | cons d ds ih =>
      apply Within.bind (Within.perform ⟨nofun, nofun⟩)
      intro refused
      cases refused with
      | some failure => exact Within.pure _
      | none => exact ih

theorem record_inVisit {name model : String} :
    InVisit k (.recordSuccess name model) ∧ InVisit k (.recordFailure name model) :=
  ⟨⟨nofun, nofun⟩, ⟨nofun, nofun⟩⟩

theorem call_inVisit (own : providerReq.model = c.model) :
    InVisit (key c.providerName c.model) (.complete c.providerName providerReq) ∧
      InVisit (key c.providerName c.model) (.stream c.providerName providerReq) := by
  rw [← own]
  exact ⟨⟨nofun, fun k' same => (Option.some.inj same).symm⟩,
    ⟨nofun, fun k' same => (Option.some.inj same).symm⟩⟩

theorem attemptLoop_within (own : providerReq.model = c.model) {remaining attempt : Nat}
    {lastErr : Option CallError} {attempts : List Attempt} {duration : Duration} :
    (e.attemptLoop c providerReq remaining attempt lastErr attempts duration).Within
      (InVisit (key c.providerName c.model)) := by
  induction remaining generalizing attempt lastErr attempts duration with
  | zero => exact Within.pure _
  | succ remaining ih =>
      rw [Engine.attemptLoop]
      apply Within.bind waitBefore_within
      intro go
      cases go with
      | false => exact Within.pure _
      | true =>
          apply Within.bind (Within.perform (call_inVisit own).1)
          intro reply
          simp only
          split
          · exact Within.bind (Within.perform record_inVisit.1) fun _ => Within.pure _
          · split
            · exact Within.pure _
            · exact Within.bind (Within.perform record_inVisit.2) fun _ => Within.pure _
            · exact Within.bind (Within.perform record_inVisit.2) fun _ => ih

theorem streamLoop_within (own : providerReq.model = c.model) {remaining attempt : Nat}
    {lastErr : Option CallError} {flushed : Bool} {attempts : List Attempt} {duration : Duration} :
    (e.streamLoop c providerReq remaining attempt lastErr flushed attempts duration).Within
      (InVisit (key c.providerName c.model)) := by
  induction remaining generalizing attempt lastErr flushed attempts duration with
  | zero => exact Within.pure _
  | succ remaining ih =>
      rw [Engine.streamLoop]
      apply Within.bind waitBefore_within
      intro go
      cases go with
      | false => exact Within.pure _
      | true =>
          apply Within.bind (Within.perform (call_inVisit own).2)
          intro reply
          apply Within.bind relayDeltas_within
          intro relayed
          simp only
          split
          · exact Within.bind (Within.perform record_inVisit.1) fun _ => Within.pure _
          · split
            · exact Within.pure _
            · split
              · exact Within.pure _
              · exact Within.bind (Within.perform record_inVisit.2) fun _ => Within.pure _
              · exact Within.bind (Within.perform record_inVisit.2) fun _ => ih

/-- A loop that keeps to its breaker follows the gate once Allow has let it in. -/
theorem loop_follows {α : Type} {loop : EngineM α} (h : loop.Within (InVisit k)) {pass : Pass}
    (own : pass.key = k) : Follows gate (fun _ _ => True) loop (some pass) := by
  have stays : Follows gate (fun _ held => held = some pass) loop (some pass) := by
    refine Follows.of_within (I := fun held => held = some pass) h ?_ rfl
    rintro op reply _ ⟨free, calls⟩ rfl
    refine ⟨fun k' called => ⟨pass, rfl, own.trans (calls k' called).symm⟩, ?_⟩
    intro g
    cases op <;> first | rfl | exact absurd rfl (free _ _)
  exact stays.mono fun _ _ _ => trivial

theorem visit_gated {α : Type} {refused : α} {loop : EngineM α}
    (h : loop.Within (InVisit (key c.providerName c.model))) :
    Follows gate (fun _ _ => True) (do
      let allowed : Bool ← perform (.allow c.providerName c.model)
      if !allowed then pure refused else loop) held := by
  apply Follows.perform_bind
  intro allowed
  refine ⟨nofun, ?_⟩
  intro g
  cases allowed with
  | false => exact Follows.pure trivial
  | true => exact loop_follows h rfl

theorem gate_idles : Idles gate (fun _ => True) := by
  rintro op reply held asks -
  refine ⟨?_, fun _ => trivial⟩
  intro k called
  rcases asks with poll | rfl
  · cases op <;> simp_all [Op.isPoll, calledKey]
  · cases called

theorem probe_within {providers : String → Option Provider} {name model : String} :
    (probe providers name model).Within (fun op => calledKey op = none) := by
  refine probe_asks.mono ?_
  intro op asks
  rcases asks with rfl | rfl | rfl | rfl | rfl | rfl <;> rfl

theorem probeOnce_within {providers : String → Option Provider} :
    (probeOnce providers).Within (fun op => calledKey op = none) := by
  refine ⟨rfl, fun breakers => ?_⟩
  change Within _ (probeAll providers breakers)
  induction breakers with
  | nil => exact Within.pure _
  | cons b breakers ih => exact Within.bind probe_within fun _ => ih

/-- Every process the gateway starts makes its provider calls on a pass. -/
theorem job_gated (job : Job) : Follows gate (fun _ _ => True) (job.program e) none := by
  cases job with
  | execute tiers req =>
      apply Follows.bind (Engine.execute_rests gate_idles (by
        intro c attempts duration held _
        exact visit_gated (attemptLoop_within rfl)) tiers trivial)
      intro _ held _
      exact Follows.pure trivial
  | executeStream tiers req =>
      apply Follows.bind (Engine.executeStream_rests gate_idles (by
        intro c attempts duration held _
        exact visit_gated (streamLoop_within rfl)) tiers trivial)
      intro _ held _
      exact Follows.pure trivial
  | probeOnce =>
      refine Follows.of_within (I := fun _ => True) probeOnce_within ?_ trivial
      intro op reply held silent _
      refine ⟨?_, fun _ => trivial⟩
      intro k called
      rw [silent] at called
      cases called

/-- A pass is no newer than the breaker's openings, and while none has happened since, the
breaker is not open. -/
def Valid (g : Gatehouse) (pass : Pass) : Prop :=
  pass.openings ≤ g.openings pass.key ∧
    (pass.openings = g.openings pass.key → g.world.registry.isOpen pass.key = false)

/-- Serving any operation keeps every pass valid: what opens the breaker is counted. -/
theorem Valid.serve {g : Gatehouse} {pass : Pass} (h : Valid g pass) (input : Input) (op : Op) :
    Valid (g.serve input op).2 pass := by
  unfold Valid Gatehouse.serve
  simp only
  by_cases opens : (g.world.serve input op).2.registry.isOpen pass.key = true ∧
      g.world.registry.isOpen pass.key = false
  · simp only [opens, Bool.not_false, Bool.and_true, if_true]
    have := h.1
    omega
  · have counted : ((g.world.serve input op).2.registry.isOpen pass.key &&
        !g.world.registry.isOpen pass.key) = false := by
      simpa using opens
    simp only [counted, Bool.false_eq_true, if_false]
    refine ⟨h.1, ?_⟩
    intro unopened
    by_contra now
    exact opens ⟨by simpa using now, h.2 unopened⟩

/-- Allow answers true only where it leaves the breaker not open. -/
theorem allow_valid {g : Gatehouse} {input : Input} {name model : String}
    (allowed : (g.serve input (.allow name model)).1 = true) :
    let g' := (g.serve input (.allow name model)).2
    Valid g' ⟨key name model, g'.openings (key name model)⟩ := by
  refine ⟨le_refl _, fun _ => ?_⟩
  have state : ((g.world.registry.get name model).allow input.clock.recordedAt).2.state ≠ .opened := by
    rcases allow_cases (g.world.registry.get name model) input.clock.recordedAt with
      ⟨-, half, -⟩ | ⟨same, -, shut⟩
    · simp [half]
    · rw [same]
      exact shut allowed
  simp only [Gatehouse.serve, World.serve, World.allow, Registry.isOpen, Registry.breakers_update,
    if_true, Option.any_some, decide_eq_false_iff_not]
  exact state

variable {pool next : GatedPool} {move : Move Job Input}

def PassesValid (pool : GatedPool) : Prop :=
  ∀ p ∈ pool.processes, ∀ pass, p.state = some pass → Valid pool.shared pass

theorem PassesValid.step (h : PassesValid pool) (moved : (gated e).step pool move = some next) :
    PassesValid next := by
  cases move with
  | start job =>
      cases moved
      intro p member pass has
      rcases List.mem_append.mp member with old | new
      · exact h p old pass has
      · rw [List.mem_singleton.mp new] at has
        cases has
  | act i input =>
      obtain ⟨op, continue_, held, found, rfl⟩ := System.act_cases moved
      have kept : ∀ pass, held = some pass → Valid (pool.shared.serve input op).2 pass :=
        fun pass has => (h _ (List.mem_of_getElem? found) pass has).serve input op
      intro p member pass has
      rcases List.mem_or_eq_of_mem_set member with old | rfl
      · exact (h p old pass has).serve input op
      · cases op with
        | allow name model =>
            -- Only this operation changes what the process holds.
            cases answer : (pool.shared.serve input (.allow name model)).1 with
            | true =>
                have given : pass = ⟨key name model,
                    (pool.shared.serve input (.allow name model)).2.openings (key name model)⟩ := by
                  simp only [gated, answer, gate, Option.some.injEq] at has
                  exact has.symm
                rw [given]
                exact allow_valid answer
            | false =>
                simp only [gated, answer, gate] at has
                cases has
        | _ => exact kept pass has

/-- The breaker key of the provider call a move starts. -/
def startedCall (pool : GatedPool) : Move Job Input → Option String
  | .start _ => none
  | .act i _ =>
      match pool.processes[i]? with
      | some ⟨.request op _, _⟩ => calledKey op
      | _ => none

/-- The condition on one step: the breaker has not opened between the Allow that let the
process in and the call it now starts. -/
def unopenedSince (pool : GatedPool) : Move Job Input → Bool
  | .start _ => true
  | .act i _ =>
      match pool.processes[i]? with
      | some ⟨.request op _, some pass⟩ =>
          (calledKey op).isNone || decide (pass.openings = pool.shared.openings pass.key)
      | _ => true

/-- The breaker `k` is open and its cooldown is still running. -/
def CoolingDown (pool : GatedPool) (k : String) (now : Int) : Prop :=
  ∃ b, pool.shared.world.registry.breakers k = some b ∧ b.state = .opened ∧
    b.cooldownElapsed now = false

def watched (cfg : Config) : GatedPool := ⟨{ world := { registry := { cfg := cfg } } }, []⟩

/-- No provider call starts while its breaker is open: in every state any interleaving of
requests and prober rounds reaches, a call whose breaker has not opened since the Allow of
its visit meets the breaker closed or half-open. -/
theorem no_call_while_open {isPrint : Char → Bool} (cfg : Gateway.Config.Accepted isPrint)
    (providers : String → Option Provider)
    (reached : (gated ⟨providers, cfg.retryConfig⟩).Reaches (fun _ _ => True)
      (watched cfg.breakerConfig) pool)
    (met : unopenedSince pool move = true) (started : startedCall pool move = some k) (now : Int) :
    ¬ CoolingDown pool k now := by
  have both : PassesValid pool ∧
      (gated ⟨providers, cfg.retryConfig⟩).Disciplined (fun _ _ => True) pool := by
    apply reached.invariant
    · exact ⟨nofun, nofun⟩
    · rintro pool move next ⟨valid, disciplined⟩ - moved
      exact ⟨valid.step moved, disciplined.step job_gated moved⟩
  obtain ⟨valid, disciplined⟩ := both
  cases move with
  | start job => cases started
  | act i input =>
      simp only [startedCall] at started
      split at started
      · rename_i op continue_ held found
        have member := List.mem_of_getElem? found
        have follows := disciplined _ member
        obtain ⟨pass, rfl, own⟩ := (follows (Classical.choice inferInstance)).1 k started
        simp only [unopenedSince, found, started, Option.isNone_some, Bool.false_or,
          decide_eq_true_eq] at met
        have shut := (valid _ member pass rfl).2 met
        rintro ⟨b, here, opened, -⟩
        rw [own, Registry.isOpen, here] at shut
        simp [opened] at shut
      · cases started

/-- The breaker opens on the first failure for a second; a visit may try twice. -/
def twoAttempts : Gateway.Config.Accepted (fun _ => true) :=
  .deployment ⟨.finite 1, 1, 1000000000, 1000000000, 1000000000, 1, 1⟩ ⟨2, 1, 1⟩ (by decide +kernel)

/-- A step of the first process, in surroundings where every provider is down. -/
def downStep : Move Job Input :=
  .act 0 ⟨⟨0, 0, 0⟩, calm (fun _ => ⟨.error (.api { statusCode := 503, message := "down" }), 0⟩)
    (fun _ => ⟨[], none, 0⟩) []⟩

/-- One request for one candidate, up to a number of operations. -/
def downVisit (steps : Nat) : List (Move Job Input) :=
  .start (.execute [⟨[⟨"a", "m", 1⟩]⟩] { model := "m", messages := [] }) ::
    List.replicate steps downStep

/-- The call the next step starts, whether its breaker opened since, and the breaker. -/
def atCall (pool : GatedPool) : Option String × Bool × Option (State × Bool) :=
  (startedCall pool downStep, unopenedSince pool downStep,
    (pool.shared.world.registry.breakers (key "a" "m")).map fun b => (b.state, b.cooldownElapsed 0))

/-- The first call of the visit meets a closed breaker. -/
theorem first_attempt_meets_closed :
    let engine : Engine := ⟨(Engine.uniform ⟨1, 1, 1⟩).providers, twoAttempts.retryConfig⟩
    ∃ pool, (gated engine).Reaches (fun _ _ => True) (watched twoAttempts.breakerConfig) pool ∧
      startedCall pool downStep = some (key "a" "m") ∧ ¬ CoolingDown pool (key "a" "m") 0 := by
  intro engine
  have final : ((gated engine).run (fun _ _ => true) (watched twoAttempts.breakerConfig)
      (downVisit 3)).map atCall = some (some (key "a" "m"), true, some (.closed, false)) := by
    decide +kernel
  obtain ⟨pool, ran, state⟩ := Option.map_eq_some_iff.mp final
  obtain ⟨started, rest⟩ := Prod.mk.inj state
  have reached := (System.Reaches.of_run ran).mono fun _ _ _ => trivial
  exact ⟨pool, reached, started,
    no_call_while_open twoAttempts _ reached (Prod.mk.inj rest).1 started 0⟩

/-- The failure of the first attempt opens the breaker; the second attempt calls anyway. -/
theorem second_attempt_meets_open :
    let engine : Engine := ⟨(Engine.uniform ⟨1, 1, 1⟩).providers, twoAttempts.retryConfig⟩
    ∃ pool, (gated engine).Reaches (fun _ _ => True) (watched twoAttempts.breakerConfig) pool ∧
      startedCall pool downStep = some (key "a" "m") ∧ CoolingDown pool (key "a" "m") 0 := by
  intro engine
  have final : ((gated engine).run (fun _ _ => true) (watched twoAttempts.breakerConfig)
      (downVisit 6)).map atCall = some (some (key "a" "m"), false, some (.opened, false)) := by
    decide +kernel
  obtain ⟨pool, ran, state⟩ := Option.map_eq_some_iff.mp final
  obtain ⟨started, rest⟩ := Prod.mk.inj state
  obtain ⟨b, here, open_⟩ := Option.map_eq_some_iff.mp (Prod.mk.inj rest).2
  have reached := (System.Reaches.of_run ran).mono fun _ _ _ => trivial
  exact ⟨pool, reached, started, b, here, (Prod.mk.inj open_).1, (Prod.mk.inj open_).2⟩

end Gateway.Breaker
