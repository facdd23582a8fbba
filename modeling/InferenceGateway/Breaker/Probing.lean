import InferenceGateway.Breaker.Slots
import InferenceGateway.Breaker.World
import InferenceGateway.Config.Config
import InferenceGateway.Interaction.Rely

/-! Rounds of the prober on one breaker that requests leave alone. -/
namespace Gateway.Breaker
open Gateway.Providers Gateway.Retry Interaction
open Interaction.Program hiding pure perform

namespace Registry

/-- Every pair handed out has its breaker, under a key of its own. -/
structure WellFormed (r : Registry) : Prop where
  distinct : (r.created.map fun pair => key pair.1 pair.2).Nodup
  known : ∀ pair ∈ r.created, (r.breakers (key pair.1 pair.2)).isSome

theorem wellFormed_empty (cfg : Config) : WellFormed { cfg } := ⟨List.nodup_nil, nofun⟩

theorem WellFormed.update {r : Registry} (h : r.WellFormed) (name model : String)
    (method : Breaker → Breaker) : (r.update name model method).WellFormed := by
  have found : ∀ pair ∈ r.created,
      ((r.update name model method).breakers (key pair.1 pair.2)).isSome := by
    intro pair listed
    rw [breakers_update]
    split
    · rfl
    · exact h.known pair listed
  cases new : r.breakers (key name model) with
  | some b =>
      have same : (r.update name model method).created = r.created := by simp [Registry.update, new]
      refine ⟨?_, ?_⟩
      · rw [same]
        exact h.distinct
      · rw [same]
        exact found
  | none =>
      have more : (r.update name model method).created = r.created ++ [(name, model)] := by
        simp [Registry.update, new]
      refine ⟨?_, ?_⟩
      · rw [more, List.map_append, List.nodup_append]
        refine ⟨h.distinct, List.nodup_singleton _, ?_⟩
        intro k listed own member same
        obtain ⟨pair, old, rfl⟩ := List.mem_map.mp listed
        have isSome := h.known pair old
        rw [same, List.mem_singleton.mp member, new] at isSome
        cases isSome
      · rw [more]
        intro pair listed
        rcases List.mem_append.mp listed with old | last
        · exact found pair old
        · rw [List.mem_singleton.mp last, breakers_update, if_pos rfl]
          rfl

theorem created_subset_update (r : Registry) (name model : String) (method : Breaker → Breaker) :
    r.created ⊆ (r.update name model method).created := by
  unfold Registry.update
  intro pair listed
  simp only
  split
  · exact List.mem_append_left _ listed
  · exact listed

/-- The snapshot is the list of the pairs handed out, in some order. -/
theorem snapshot_perm (r : Registry) (order : List (String × String)) :
    (r.snapshot order).Perm r.created := by
  unfold snapshot
  split
  · rename_i perm
    exact List.isPerm_iff.mp perm
  · exact List.Perm.refl _

end Registry

/-- The registry has handed out the pair, and its breaker satisfies `P`. -/
structure Holding (name model : String) (P : Breaker → Prop) (w : World) : Prop where
  wellFormed : w.registry.WellFormed
  listed : (name, model) ∈ w.registry.created
  holds : ∃ b, w.registry.breakers (key name model) = some b ∧ P b

/-- Others may create breakers and change any but this one. -/
structure Aside (k : String) (w w' : World) : Prop where
  same : w'.registry.breakers k = w.registry.breakers k
  grows : w.registry.created ⊆ w'.registry.created
  wellFormed : w.registry.WellFormed → w'.registry.WellFormed

/-- No request reaches the breaker, its provider's health check succeeds, and the cooldown
with which `b` was opened is over. -/
def recovering (name model : String) (b : Breaker) : Surroundings Op Op.Reply World Input where
  serve := World.serve
  rely := Aside (key name model)
  ok input := input.oracle (.healthCheck name) = none ∧
    b.cooldownElapsed input.clock.recordedAt = true
  refl _ := ⟨rfl, List.Subset.refl _, id⟩

def probeRounds (providers : String → Option Provider) : Nat → EngineM Unit
  | 0 => pure ()
  | rounds + 1 => do
      probeOnce providers
      probeRounds providers rounds

/-- The breaker whose method the operation is. -/
def touched : Op → Option String
  | .ready name model | .allow name model | .state name model | .recordSuccess name model
  | .recordFailure name model => some (key name model)
  | _ => none

section Rounds
variable {name model : String} {b : Breaker} {P Q : Breaker → Prop}
  {providers : String → Option Provider} {w : World}

theorem Holding.stable (P : Breaker → Prop) : (recovering name model b).Stable (Holding name model P) := by
  intro w w' h aside
  obtain ⟨b, found, here⟩ := h.holds
  exact ⟨aside.wellFormed h.wellFormed, aside.grows h.listed, b, aside.same.trans found, here⟩

theorem Holding.update_self (h : Holding name model P w) {method : Breaker → Breaker}
    (kept : ∀ b, P b → Q (method b)) : Holding name model Q (w.update name model method) := by
  obtain ⟨b, found, here⟩ := h.holds
  refine ⟨h.wellFormed.update _ _ _, w.registry.created_subset_update _ _ _ h.listed,
    method b, ?_, kept b here⟩
  have got : w.registry.get name model = b := by rw [Registry.get, found, Option.getD_some]
  rw [World.update, Registry.breakers_update, if_pos rfl, got]

theorem Holding.update_other (h : Holding name model P w) {otherName otherModel : String}
    (apart : key otherName otherModel ≠ key name model) (method : Breaker → Breaker) :
    Holding name model P (w.update otherName otherModel method) := by
  obtain ⟨b, found, here⟩ := h.holds
  refine ⟨h.wellFormed.update _ _ _, w.registry.created_subset_update _ _ _ h.listed, b, ?_, here⟩
  rw [World.update, Registry.breakers_update, if_neg (Ne.symm apart), found]

/-- Allow changes the registry by its method and nothing else in it. -/
theorem Holding.of_registry {w' : World} (h : Holding name model P w)
    (same : w'.registry = w.registry) : Holding name model P w' :=
  ⟨same ▸ h.wellFormed, same ▸ h.listed, same ▸ h.holds⟩

theorem Holding.serve_other (h : Holding name model P w) (input : Input) {op : Op}
    (apart : touched op ≠ some (key name model)) : Holding name model P (w.serve input op).2 := by
  cases op with
  | ready _ _ => exact h.update_other (fun same => apart (congrArg some same)) _
  | state _ _ => exact h.update_other (fun same => apart (congrArg some same)) _
  | recordSuccess _ _ => exact h.update_other (fun same => apart (congrArg some same)) _
  | recordFailure _ _ => exact h.update_other (fun same => apart (congrArg some same)) _
  | allow otherName otherModel =>
      exact (h.update_other (fun same => apart (congrArg some same))
        fun b => (b.allow input.clock.recordedAt).2).of_registry rfl
  | _ => exact h

theorem Holding.get (h : Holding name model P w) : P (w.registry.get name model) := by
  obtain ⟨b, found, here⟩ := h.holds
  rwa [Registry.get, found, Option.getD_some]

/-- A probe of another breaker leaves this one alone. -/
theorem probe_apart {otherName otherModel : String}
    (apart : key otherName otherModel ≠ key name model) :
    (recovering name model b).Triple (Holding name model P) (probe providers otherName otherModel)
      (fun _ => Holding name model P) := by
  refine Surroundings.Triple.of_within probe_asks (Holding.stable P) ?_
  intro op w input asks h _
  refine h.serve_other input ?_
  rcases asks with rfl | rfl | rfl | rfl | rfl | rfl
  case inr.inr.inr.inl => nofun
  all_goals exact fun same => apart (Option.some.inj same)

theorem probeAll_apart {pairs : List (String × String)}
    (apart : ∀ pair ∈ pairs, key pair.1 pair.2 ≠ key name model) :
    (recovering name model b).Triple (Holding name model P) (probeAll providers pairs)
      (fun _ => Holding name model P) := by
  induction pairs with
  | nil => exact .pure (Holding.stable P) fun _ h => h
  | cons pair pairs ih =>
      exact .bind (probe_apart (apart pair List.mem_cons_self)) fun _ =>
        ih fun later member => apart later (List.mem_cons_of_mem pair member)

/-- A round probes the breaker once. -/
theorem probeAll_once {pairs : List (String × String)} (listed : (name, model) ∈ pairs)
    (distinct : (pairs.map fun pair => key pair.1 pair.2).Nodup)
    (own : (recovering name model b).Triple (Holding name model P) (probe providers name model)
      (fun _ => Holding name model Q)) :
    (recovering name model b).Triple (Holding name model P) (probeAll providers pairs)
      (fun _ => Holding name model Q) := by
  induction pairs with
  | nil => cases listed
  | cons pair pairs ih =>
      rw [List.map_cons, List.nodup_cons] at distinct
      rcases List.mem_cons.mp listed with rfl | later
      · refine .bind own fun _ => probeAll_apart ?_
        intro other member same
        exact distinct.1 (List.mem_map.mpr ⟨other, member, same⟩)
      · refine .bind (probe_apart ?_) fun _ => ih later distinct.2
        intro same
        exact distinct.1 (List.mem_map.mpr ⟨(name, model), later, same.symm⟩)

theorem probeOnce_once
    (own : (recovering name model b).Triple (Holding name model P) (probe providers name model)
      (fun _ => Holding name model Q)) :
    (recovering name model b).Triple (Holding name model P) (probeOnce providers)
      (fun _ => Holding name model Q) := by
  refine .perform_bind (M := fun pairs w => ((name, model) ∈ pairs ∧
    (pairs.map fun pair => key pair.1 pair.2).Nodup) ∧ Holding name model P w)
    (Holding.stable P) ?_ ?_
  · intro w input h _
    have order := w.registry.snapshot_perm (input.oracle .snapshot)
    exact ⟨⟨order.mem_iff.mpr h.listed, (order.map _).nodup_iff.mpr h.wellFormed.distinct⟩, h⟩
  · intro pairs
    exact .of_fact fun facts => probeAll_once facts.1 facts.2 own

/-- A breaker that is not open is passed over. -/
theorem probe_passes {state : State} (skipped : state ≠ .opened) :
    (recovering name model b).Triple (Holding name model (·.state = state))
      (probe providers name model) (fun _ => Holding name model (·.state = state)) := by
  refine .perform_bind (M := fun seen w => seen = state ∧ Holding name model (·.state = state) w)
    (Holding.stable _) ?_ ?_
  · intro w input h _
    exact ⟨h.get, h.update_self fun _ same => same⟩
  · intro seen
    refine .of_fact ?_
    rintro rfl
    rw [if_pos skipped]
    exact .pure (Holding.stable _) fun _ h => h

/-- The state in which a first successful probe leaves an open breaker. -/
def probedState (cfg : Config) : State := if cfg.halfOpenProbes = 1 then .closed else .halfOpen

theorem probed_state (probes : 1 ≤ b.cfg.halfOpenProbes) {now : Int} (reopening : b.reopens now)
    (later : Int) : ((b.allow now).2.recordSuccess later).state = probedState b.cfg := by
  have positive : ¬ b.cfg.halfOpenProbes ≤ 0 := by omega
  simp only [allow, enterHalfOpen_of_reopens reopening, if_neg positive, recordSuccess, probedState]
  by_cases single : b.cfg.halfOpenProbes = 1
  · simp [single, resetWindow]
  · have more : ¬ b.cfg.halfOpenProbes ≤ 1 := by omega
    simp [more, single]

/-- The first probe of an open breaker is its last. -/
theorem probe_first {provider : Provider} (probes : 1 ≤ b.cfg.halfOpenProbes)
    (opened : b.state = .opened) (known : providers name = some provider)
    (checks : provider.healthChecker = true) :
    (recovering name model b).Triple (Holding name model (· = b)) (probe providers name model)
      (fun _ => Holding name model (·.state = probedState b.cfg)) := by
  refine .perform_bind (M := fun seen w => seen = .opened ∧ Holding name model (· = b) w)
    (Holding.stable _) ?_ ?_
  · intro w input h _
    exact ⟨(congrArg Breaker.state h.get).trans opened, h.update_self fun _ same => same⟩
  intro seen
  refine .of_fact ?_
  rintro rfl
  rw [if_neg (not_not.mpr rfl)]
  refine .perform_bind (M := fun ready w => ready = true ∧ Holding name model (· = b) w)
    (Holding.stable _) ?_ ?_
  · intro w input h ok
    refine ⟨?_, h.update_self fun _ same => same⟩
    change (w.registry.get name model).ready input.clock.recordedAt = true
    rw [h.get, ready, opened]
    exact ok.2
  intro ready
  refine .of_fact ?_
  rintro rfl
  simp only [Bool.not_true, Bool.false_eq_true, if_false, known, checks]
  let probing : Breaker → Prop := fun half => ∃ now, b.reopens now ∧ half = (b.allow now).2
  refine .perform_bind (M := fun allowed w => allowed = true ∧ Holding name model probing w)
    (Holding.stable _) ?_ ?_
  · intro w input h ok
    have reopening : b.reopens input.clock.recordedAt := ⟨opened, ok.2⟩
    refine ⟨?_, ?_⟩
    · change ((w.registry.get name model).allow input.clock.recordedAt).1 = true
      rw [h.get]
      exact (allow_metered_of_reopens probes reopening).1
    · have moved : Holding name model probing
          (w.update name model fun b => (b.allow input.clock.recordedAt).2) :=
        h.update_self fun _ same => ⟨_, reopening, by rw [same]⟩
      exact moved.of_registry rfl
  intro allowed
  refine .of_fact ?_
  rintro rfl
  simp only [Bool.not_true, Bool.false_eq_true, if_false]
  refine .perform_bind (M := fun err w => err = none ∧ Holding name model probing w)
    (Holding.stable _) ?_ ?_
  · intro w input h ok
    exact ⟨ok.1, h⟩
  intro err
  refine .of_fact ?_
  rintro rfl
  refine .perform_bind (f := pure) (M := fun _ => Holding name model (·.state = probedState b.cfg))
    (Holding.stable _) ?_ ?_
  · intro w input h _
    refine h.update_self ?_
    rintro _ ⟨now, reopening, rfl⟩
    exact probed_state probes reopening _
  · intro _
    exact .pure (Holding.stable _) fun _ h => h

theorem probeRounds_passes {state : State} (skipped : state ≠ .opened) (rounds : Nat) :
    (recovering name model b).Triple (Holding name model (·.state = state))
      (probeRounds providers rounds) (fun _ => Holding name model (·.state = state)) := by
  induction rounds with
  | zero => exact .pure (Holding.stable _) fun _ h => h
  | succ rounds ih => exact .bind (probeOnce_once (probe_passes skipped)) fun _ => ih

/-- Any positive number of rounds does what the first one does. -/
theorem probeRounds_first {provider : Provider} (probes : 1 ≤ b.cfg.halfOpenProbes)
    (opened : b.state = .opened) (known : providers name = some provider)
    (checks : provider.healthChecker = true) (rounds : Nat) :
    (recovering name model b).Triple (Holding name model (· = b))
      (probeRounds providers (rounds + 1))
      (fun _ => Holding name model (·.state = probedState b.cfg)) := by
  have elsewhere : probedState b.cfg ≠ .opened := by
    unfold probedState
    split <;> simp
  exact .bind (probeOnce_once (probe_first probes opened known checks)) fun _ =>
    probeRounds_passes elsewhere rounds

/-- The surroundings of a recovery are possible. -/
theorem exists_recovery (name model : String) (b : Breaker) (p : EngineM Unit) (w : World) :
    ∃ w', (recovering name model b).Executes w p w' () := by
  let input : Input := ⟨⟨b.openedAt + b.curCooldown.toInt, 0, 0⟩,
    calm (fun _ => ⟨.error (.other "unused"), 0⟩) (fun _ => ⟨[], none, 0⟩) []⟩
  have ok : (recovering name model b).ok input := by
    refine ⟨rfl, ?_⟩
    simp [cooldownElapsed, input]
  obtain ⟨w', ⟨⟩, run⟩ := Surroundings.exists_executes ok p w
  exact ⟨w', run⟩

end Rounds

/-- As many rounds as the configuration has probes, after the cooldown and without traffic,
close every open breaker of a provider with a succeeding health check exactly if one probe
is configured. -/
theorem prober_closes_iff {isPrint : Char → Bool} (cfg : Gateway.Config.Accepted isPrint)
    {providers : String → Option Provider} {name model : String} {provider : Provider}
    (known : providers name = some provider) (checks : provider.healthChecker = true) {b : Breaker}
    (configured : b.cfg = cfg.breakerConfig) (opened : b.state = .opened) {w : World}
    (held : Holding name model (· = b) w) :
    (∀ w', (recovering name model b).Executes w
        (probeRounds providers cfg.breakerConfig.halfOpenProbes.toNat) w' () →
        (w'.registry.get name model).state = .closed) ↔
      cfg.breakerConfig.halfOpenProbes = 1 := by
  have positive := cfg.halfOpenProbes_pos
  have probes : 1 ≤ b.cfg.halfOpenProbes := configured ▸ positive
  obtain ⟨rounds, count⟩ : ∃ rounds, cfg.breakerConfig.halfOpenProbes.toNat = rounds + 1 :=
    ⟨cfg.breakerConfig.halfOpenProbes.toNat - 1, by omega⟩
  have ends : ∀ w', (recovering name model b).Executes w (probeRounds providers (rounds + 1)) w' () →
      (w'.registry.get name model).state = probedState cfg.breakerConfig := by
    intro w' run
    rw [← configured]
    exact (probeRounds_first probes opened known checks rounds w w' () held run).get
  rw [count]
  constructor
  · intro closes
    obtain ⟨w', run⟩ := exists_recovery name model b (probeRounds providers (rounds + 1)) w
    have closed := (ends w' run).symm.trans (closes w' run)
    by_contra more
    rw [probedState, if_neg more] at closed
    cases closed
  · intro single w' run
    rw [ends w' run, probedState, if_pos single]

def singleProbe : Gateway.Config.Accepted (fun _ => true) :=
  .deployment ⟨.finite 1, 1, 1000000000, 1, 1, 1, 1⟩ ⟨1, 1, 1⟩ (by decide +kernel)

def doubleProbe : Gateway.Config.Accepted (fun _ => true) :=
  .deployment ⟨.finite 1, 1, 1000000000, 1, 1, 2, 1⟩ ⟨1, 1, 1⟩ (by decide +kernel)

/-- A breaker opened at time 0, alone in its registry. -/
def openedBreaker (cfg : Config) : Breaker := { newBreaker "a" "m" cfg with state := .opened }

def openedWorld (cfg : Config) : World :=
  { registry := Registry.update { cfg } "a" "m" fun _ => openedBreaker cfg }

theorem openedWorld_holding (cfg : Config) :
    Holding "a" "m" (· = openedBreaker cfg) (openedWorld cfg) := by
  refine ⟨(Registry.wellFormed_empty cfg).update "a" "m" fun _ => openedBreaker cfg,
    by simp [openedWorld, Registry.update], openedBreaker cfg, ?_, rfl⟩
  rw [openedWorld, Registry.breakers_update, if_pos rfl]

def checkedProvider : Provider := ⟨fun _ => classifyByStatus, fun _ => (0, 0), true⟩

theorem single_probe_closes :
    Holding "a" "m" (· = openedBreaker singleProbe.breakerConfig)
        (openedWorld singleProbe.breakerConfig) ∧
      ∀ w', (recovering "a" "m" (openedBreaker singleProbe.breakerConfig)).Executes
          (openedWorld singleProbe.breakerConfig)
          (probeRounds (fun _ => some checkedProvider)
            singleProbe.breakerConfig.halfOpenProbes.toNat) w' () →
        (w'.registry.get "a" "m").state = .closed :=
  ⟨openedWorld_holding _, (prober_closes_iff singleProbe rfl rfl rfl rfl
    (openedWorld_holding _)).mpr rfl⟩

/-- With two probes configured the second round finds the breaker half-open and passes over
it. -/
theorem second_probe_never_made :
    doubleProbe.breakerConfig.halfOpenProbes = 2 ∧
      Holding "a" "m" (· = openedBreaker doubleProbe.breakerConfig)
        (openedWorld doubleProbe.breakerConfig) ∧
      ∃ w', (recovering "a" "m" (openedBreaker doubleProbe.breakerConfig)).Executes
          (openedWorld doubleProbe.breakerConfig)
          (probeRounds (fun _ => some checkedProvider) 2) w' () ∧
        (w'.registry.get "a" "m").state = .halfOpen := by
  refine ⟨rfl, openedWorld_holding _, ?_⟩
  have rounds : (recovering "a" "m" (openedBreaker doubleProbe.breakerConfig)).Triple _
      (probeRounds (fun _ => some checkedProvider) 2) _ :=
    probeRounds_first doubleProbe.halfOpenProbes_pos rfl rfl rfl 1
  obtain ⟨w', run⟩ := exists_recovery "a" "m" (openedBreaker doubleProbe.breakerConfig)
    (probeRounds (fun _ => some checkedProvider) 2) (openedWorld doubleProbe.breakerConfig)
  have ends := rounds _ w' () (openedWorld_holding _) run
  exact ⟨w', run, ends.get⟩

end Gateway.Breaker
