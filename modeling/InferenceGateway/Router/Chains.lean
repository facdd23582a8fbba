import InferenceGateway.Interaction.Lockstep
import InferenceGateway.Retry.Parity
import InferenceGateway.Router.Router

/-! Explicit fallback chains under two sets of weights. A chain is run through the weighted
picker as tiers of one candidate: any positive weight picks the candidate, and weight zero
takes it out of the chain. -/
namespace Gateway.Router
open Gateway.Config (ProviderConfig)
open Gateway.Providers Gateway.Retry Interaction

/-- Configurations that agree on all but the weights of their providers. -/
def DifferInWeights (cfg cfg' : Gateway.Config) : Prop :=
  cfg' = { cfg with providers := cfg'.providers } ∧
    List.Forall₂ (fun p p' => p' = { p with weight := p'.weight }) cfg.providers cfg'.providers

/-- Execute over Resolve. -/
def serve (r : Router) (e : Engine) (aliasName : String) (req : CanonicalRequest) :
    EngineM (Except String (Option (Except Error Result))) :=
  match r.resolve aliasName with
  | .error err => pure (.error err)
  | .ok tiers => do
      let outcome ← e.execute tiers req
      pure (.ok outcome)

open Interaction.Program

/-- A draw of the weighted picker. -/
def isDraw : Op → Bool
  | .intn _ => true
  | _ => false

def isCompletion : Op → Bool
  | .complete _ _ => true
  | _ => false

/-- The provider calls of a trace, with their requests and replies. -/
def completions (tr : Trace) : Trace := tr.filter fun ev => isCompletion ev.1

/-- Surroundings that behave the same wherever what they have seen is the same up to draws. -/
def Agree (answer answer' : Trace → (op : Op) → op.Reply) : Prop :=
  ∀ past past', (past.filter fun ev => !isDraw ev.1) = past'.filter (fun ev => !isDraw ev.1) →
    ∀ op, isDraw op = false → answer past op = answer' past' op

/-- The same provider calls and the same outcome, in all surroundings that agree. -/
def SameService (e : Engine) (r r' : Router) (aliasName : String) (req : CanonicalRequest) : Prop :=
  ∀ answer answer', Agree answer answer' →
    let run := exec answer (r.serve e aliasName req) []
    let run' := exec answer' (r'.serve e aliasName req) []
    completions run.1 = completions run'.1 ∧ run.2 = run'.2

section Draws

inductive KinUpToDraws : Op → Op → Prop
  | same {o : Op} : isDraw o = false → KinUpToDraws o o
  | draw (n n' : Int64) : KinUpToDraws (.intn n) (.intn n')

inductive AlikeUpToDraws : Event Op Op.Reply → Event Op Op.Reply → Prop
  | same {o : Op} (reply : o.Reply) : isDraw o = false → AlikeUpToDraws ⟨o, reply⟩ ⟨o, reply⟩
  | draw {n n' : Int64} (pick : Below n) (pick' : Below n') : AlikeUpToDraws ⟨.intn n, pick⟩ ⟨.intn n', pick'⟩

def upToDraws : Likeness Op Op.Reply Op Op.Reply := ⟨KinUpToDraws, AlikeUpToDraws⟩

theorem filter_alike (keep : Op → Bool) (undrawn : ∀ n, keep (.intn n) = false) {tr tr' : Trace}
    (alike : List.Forall₂ AlikeUpToDraws tr tr') :
    (tr.filter fun ev => keep ev.1) = tr'.filter fun ev => keep ev.1 := by
  induction alike with
  | nil => rfl
  | cons same _ ih =>
      cases same with
      | same reply _ => rw [List.filter_cons, List.filter_cons, ih]
      | draw pick pick' => simp [undrawn, ih]

theorem Agree.alike {answer answer' : Trace → (op : Op) → op.Reply} (h : Agree answer answer')
    (past past' : Trace) (before : List.Forall₂ AlikeUpToDraws past past') (o o' : Op)
    (kin : KinUpToDraws o o') : AlikeUpToDraws ⟨o, answer past o⟩ ⟨o', answer' past' o'⟩ := by
  cases kin with
  | same undrawn =>
      rw [h past past' (filter_alike (fun o => !isDraw o) (fun _ => rfl) before) o undrawn]
      exact .same _ undrawn
  | draw n n' => exact .draw _ _

theorem undrawn_same {o : Op} (undrawn : isDraw o = false) :
    upToDraws.kin o o ∧ ∀ r q, upToDraws.alike ⟨o, r⟩ ⟨o, q⟩ → r = q := by
  have inversion : ∀ ev ev', upToDraws.alike ev ev' → ev = ev' ∨ ¬ isDraw ev.1 = false := by
    intro ev ev' alike
    cases alike with
    | same reply _ => exact .inl rfl
    | draw pick pick' => exact .inr (by simp [isDraw])
  exact ⟨.same undrawn, fun r q alike => upToDraws.reply_eq (isDraw · = false) inversion undrawn alike⟩

theorem lockstep_undrawn {α : Type} {p : EngineM α} (undrawn : p.Within fun o => isDraw o = false) :
    Lockstep upToDraws Eq p p := Lockstep.refl undrawn fun _ => undrawn_same

end Draws

/-- Programs in step up to draws give the same service. -/
theorem SameService.of_lockstep {e : Engine} {r r' : Router} {aliasName : String} {req : CanonicalRequest}
    (h : Lockstep upToDraws Eq (r.serve e aliasName req) (r'.serve e aliasName req)) :
    SameService e r r' aliasName req := by
  intro answer answer' agree
  obtain ⟨alike, outcome⟩ := h.exec agree.alike .nil
  exact ⟨filter_alike isCompletion (fun _ => rfl) alike, outcome⟩

section Engine
variable {e : Engine} {c : Candidate} {w : Int64} {req : CanonicalRequest}

theorem attemptLoop_weight (remaining attempt : Nat) (lastErr : Option CallError) (attempts : List Attempt)
    (duration : Duration) :
    e.attemptLoop { c with weight := w } req remaining attempt lastErr attempts duration =
      e.attemptLoop c req remaining attempt lastErr attempts duration := by
  induction remaining generalizing attempt lastErr attempts duration with
  | zero => rfl
  | succ remaining ih => simp only [Engine.attemptLoop, ih]

/-- What is done with a candidate does not depend on its weight. -/
theorem tryCandidate_weight (attempts : List Attempt) (duration : Duration) :
    e.tryCandidate { c with weight := w } req attempts duration = e.tryCandidate c req attempts duration := by
  simp only [Engine.tryCandidate, attemptLoop_weight]

theorem waitBefore_undrawn (attempt : Nat) (lastErr : Option CallError) :
    (waitBefore e.cfg attempt lastErr).Within fun o => isDraw o = false := by
  apply Within.of_runs
  rintro _ _ run ⟨op, reply⟩ member
  have wait := waitBefore_waits run _ member
  cases op <;> first | rfl | cases wait

theorem attemptLoop_undrawn (remaining attempt : Nat) (lastErr : Option CallError) (attempts : List Attempt)
    (duration : Duration) :
    (e.attemptLoop c req remaining attempt lastErr attempts duration).Within fun o => isDraw o = false := by
  induction remaining generalizing attempt lastErr attempts duration with
  | zero => exact .pure _
  | succ remaining ih =>
      rw [Engine.attemptLoop]
      refine (waitBefore_undrawn attempt lastErr).bind fun go => ?_
      cases go with
      | false => exact .pure _
      | true =>
          refine .perform_bind rfl fun reply => ?_
          cases reply.result with
          | ok resp => exact .perform_bind rfl fun _ => .pure _
          | error err =>
              simp only
              cases e.classify c.providerName err with
              | terminal => exact .pure _
              | fallback => exact .perform_bind rfl fun _ => .pure _
              | retryable => exact .perform_bind rfl fun _ => ih _ _ _ _

theorem tryCandidate_undrawn (attempts : List Attempt) (duration : Duration) :
    (e.tryCandidate c req attempts duration).Within fun o => isDraw o = false := by
  rw [Engine.tryCandidate]
  refine .perform_bind rfl fun allowed => ?_
  cases allowed with
  | false => exact .pure _
  | true => exact attemptLoop_undrawn _ _ _ _ _

/-- A tier of one candidate that has been tried is left. -/
theorem pickFromTier_tried {tried : List String} (member : c.providerName ∈ tried) :
    e.pickFromTier ⟨[c]⟩ tried = pure none := by
  simp only [Engine.pickFromTier, Engine.scanTier, if_pos member]
  rfl

theorem pickFromTier_unwired (unwired : (e.providers c.providerName).isNone = true) :
    e.pickFromTier ⟨[c]⟩ [] = pure none := by
  simp only [Engine.pickFromTier, Engine.scanTier, List.not_mem_nil, if_false, if_pos unwired]
  rfl

/-- Otherwise it is asked for, and picked whatever is drawn, unless it has no weight. -/
theorem pickFromTier_wired (wired : (e.providers c.providerName).isNone = false) :
    e.pickFromTier ⟨[c]⟩ [] = .request (.ready c.providerName c.model) fun ready =>
      if ready then
        if c.weight ≤ 0 then Pure.pure none
        else .request (.intn c.weight) fun _ => Pure.pure (some c)
      else Pure.pure none := by
  simp only [Engine.pickFromTier, Engine.scanTier, List.not_mem_nil, if_false, wired, Bool.false_eq_true,
    List.nil_append]
  generalize sum : 0 + c.weight = total
  have same : total = c.weight := by rw [← sum, Int64.zero_add]
  subst same
  change Program.request _ _ = Program.request _ _
  congr 1
  funext ready
  cases ready with
  | false => rfl
  | true =>
      have only : ∀ pick, Engine.scanWeights c [c] pick = c := by
        intro pick
        rw [Engine.scanWeights]
        split <;> rfl
      change (if c.weight ≤ 0 then Pure.pure none
        else (.request (.intn c.weight) fun pick =>
          Pure.pure (some (Engine.scanWeights c [c] (Int64.ofNat pick.val))) : EngineM (Option Candidate))) = _
      simp only [only, if_true]

/-- Two candidates that a tier of one treats alike. -/
structure Interchangeable (e : Engine) (c c' : Candidate) : Prop where
  provider : c'.providerName = c.providerName
  model : c'.model = c.model
  drained : (e.providers c.providerName).isSome = true → (c.weight ≤ 0 ↔ c'.weight ≤ 0)

variable {c' : Candidate} (h : Interchangeable e c c')
include h

/-- Both are picked, or neither is. -/
theorem pickFromTier_lockstep :
    Lockstep upToDraws
      (fun picked picked' => (picked = none ∧ picked' = none) ∨ (picked = some c ∧ picked' = some c'))
      (e.pickFromTier ⟨[c]⟩ []) (e.pickFromTier ⟨[c']⟩ []) := by
  cases wired : (e.providers c.providerName).isNone with
  | true =>
      rw [pickFromTier_unwired wired, pickFromTier_unwired (by rw [h.provider]; exact wired)]
      exact .inl ⟨rfl, rfl⟩
  | false =>
      have weights := h.drained (by rw [← Option.not_isNone, wired]; rfl)
      rw [pickFromTier_wired wired, pickFromTier_wired (by rw [h.provider]; exact wired), h.provider, h.model]
      refine ⟨.same rfl, fun ready ready' alike => ?_⟩
      cases (undrawn_same rfl).2 _ _ alike
      cases ready with
      | false => exact .inl ⟨rfl, rfl⟩
      | true =>
          simp only [if_true]
          by_cases light : c.weight ≤ 0
          · rw [if_pos light, if_pos (weights.mp light)]
            exact .inl ⟨rfl, rfl⟩
          · rw [if_neg light, if_neg fun light' => light (weights.mpr light')]
            exact ⟨.draw _ _, fun _ _ _ => .inr ⟨rfl, rfl⟩⟩

theorem tryCandidate_eq (attempts : List Attempt) (duration : Duration) :
    e.tryCandidate c' req attempts duration = e.tryCandidate c req attempts duration := by
  have same : c' = { c with weight := c'.weight } := by
    obtain ⟨name, model, weight⟩ := c'
    obtain ⟨rfl, rfl, -⟩ := h
    rfl
  rw [same, tryCandidate_weight]

/-- After its one candidate a tier is left. -/
theorem tryTier_tried (p : Engine.Progress) :
    e.tryTier ⟨[c']⟩ req 1 [c.providerName] p = Pure.pure (.advance p) := by
  have member : c'.providerName ∈ [c.providerName] := h.provider ▸ List.mem_singleton_self _
  rw [Engine.tryTier, pickFromTier_tried member]
  rfl

omit h in
theorem Interchangeable.refl (e : Engine) (c : Candidate) : Interchangeable e c c :=
  ⟨rfl, rfl, fun _ => Iff.rfl⟩

theorem tryTier_lockstep_chain (p : Engine.Progress) :
    Lockstep upToDraws Eq (e.tryTier ⟨[c]⟩ req 2 [] p) (e.tryTier ⟨[c']⟩ req 2 [] p) := by
  rw [Engine.tryTier, Engine.tryTier]
  refine .bind (pickFromTier_lockstep h) ?_
  rintro picked picked' (⟨rfl, rfl⟩ | ⟨rfl, rfl⟩)
  · exact rfl
  · simp only [tryCandidate_eq h, h.provider, h.model, tryTier_tried h, tryTier_tried (.refl e c)]
    refine .bind (lockstep_undrawn (tryCandidate_undrawn _ _)) ?_
    rintro t _ rfl
    apply lockstep_undrawn
    cases t.err with
    | none => exact .pure _
    | some err =>
        cases err with
        | breakerRejected => exact .pure _
        | call err =>
            simp only
            cases e.classify c.providerName err with
            | terminal => exact .pure _
            | retryable =>
                refine .perform_bind rfl fun ctxErr => ?_
                cases ctxErr <;> exact .pure _
            | fallback =>
                refine .perform_bind rfl fun ctxErr => ?_
                cases ctxErr <;> exact .pure _

omit h in
/-- Chains of interchangeable candidates are run alike. -/
theorem executeFrom_lockstep_chain {cs cs' : List Candidate} (pairs : List.Forall₂ (Interchangeable e) cs cs')
    (p : Engine.Progress) :
    Lockstep upToDraws Eq (e.executeFrom req (cs.map fun c => ⟨[c]⟩) p)
      (e.executeFrom req (cs'.map fun c => ⟨[c]⟩) p) := by
  induction pairs generalizing p with
  | nil => exact rfl
  | cons pair _ ih =>
      rw [List.map_cons, List.map_cons, Engine.executeFrom, Engine.executeFrom]
      refine .bind (tryTier_lockstep_chain pair p) ?_
      rintro ended _ rfl
      cases ended with
      | advance p => exact ih p
      | returned r => exact rfl
      | outOfFuel => exact rfl

end Engine

section Chain
variable {r r' : Router} {e : Engine} {aliasName : String} {req : CanonicalRequest}

/-- The candidates of a chain, in its order. -/
def chainCandidates (r : Router) (models : List (String × String)) (chain : List String) : List Candidate :=
  chain.filterMap fun name => (models.lookup name).map (r.offered name)

theorem chainTiers_eq (r : Router) (models : List (String × String)) (chain : List String) :
    r.chainTiers models chain = (r.chainCandidates models chain).map fun c => ⟨[c]⟩ := by
  rw [chainTiers, chainCandidates, List.map_filterMap]
  apply List.filterMap_congr
  intro name _
  rw [Option.map_map]
  rfl

/-- Execute over a chain, where any of it is mapped. -/
theorem serve_chain {models : List (String × String)} {chain : List String}
    (entry : (r.modelAliases.lookup aliasName).getD [] = models)
    (chained : (r.fallbackChains.lookup aliasName).getD [] = chain) (listed : chain ≠ []) :
    r.serve e aliasName req =
      if r.chainCandidates models chain = [] then Pure.pure (.error errUnknownModel)
      else e.execute ((r.chainCandidates models chain).map fun c => ⟨[c]⟩) req >>=
        fun outcome => Pure.pure (.ok outcome) := by
  unfold serve resolve
  simp only [entry, chained, listed, ne_eq, not_false_eq_true, if_true, chainTiers_eq, List.map_eq_nil_iff]
  by_cases unknown : models = []
  · have none : r.chainCandidates models chain = [] := by
      rw [chainCandidates, unknown]
      simp
    rw [if_pos unknown, if_pos none]
  · rw [if_neg unknown]
    by_cases none : r.chainCandidates models chain = []
    · rw [if_pos none, if_pos none]
    · rw [if_neg none, if_neg none]

theorem mem_chainCandidates {models : List (String × String)} {chain : List String} {c : Candidate} :
    c ∈ r.chainCandidates models chain ↔
      ∃ name ∈ chain, ∃ model, models.lookup name = some model ∧ c = r.offered name model := by
  simp only [chainCandidates, List.mem_filterMap, Option.map_eq_some_iff]
  constructor
  · rintro ⟨name, listed, model, entry, rfl⟩
    exact ⟨name, listed, model, entry, rfl⟩
  · rintro ⟨name, listed, model, entry, rfl⟩
    exact ⟨name, listed, model, entry, rfl⟩

theorem forall₂_chainCandidates {models : List (String × String)} {chain : List String}
    (drained : ∀ name ∈ chain, (models.lookup name).isSome → (e.providers name).isSome →
      (read r.providerWeight name ≤ 0 ↔ read r'.providerWeight name ≤ 0)) :
    List.Forall₂ (Interchangeable e) (r.chainCandidates models chain) (r'.chainCandidates models chain) := by
  induction chain with
  | nil => exact .nil
  | cons name chain ih =>
      have rest := ih fun name listed => drained name (List.mem_cons_of_mem _ listed)
      have first := drained name List.mem_cons_self
      simp only [chainCandidates, List.filterMap_cons] at rest ⊢
      cases entry : models.lookup name with
      | none => exact rest
      | some model => exact .cons ⟨rfl, rfl, first (by rw [entry]; rfl)⟩ rest

end Chain

section Favour
variable {e : Engine} {c : Candidate} {req : CanonicalRequest} {name : String}

/-- Surroundings in which one provider is ready, and serves. -/
def favouring (name : String) : (op : Op) → op.Reply
  | .ready other _ => other == name
  | op => calm (fun _ => ⟨.ok ⟨"", "", 0, "", [], ⟨0, 0, 0⟩⟩, 0⟩) (fun _ => ⟨[], none, 0⟩) [] op

def Favours (name : String) (ev : Event Op Op.Reply) : Prop := ev.2 = favouring name ev.1

theorem pickFromTier_passed (passed : c.providerName = name → c.weight ≤ 0) :
    (e.pickFromTier ⟨[c]⟩ []).Given (Favours name) (· = none) := by
  cases wired : (e.providers c.providerName).isNone with
  | true =>
      rw [pickFromTier_unwired wired]
      exact rfl
  | false =>
      rw [pickFromTier_wired wired]
      intro ready favoured
      cases ready with
      | false => exact rfl
      | true =>
          have same : c.providerName = name := by
            have asked : (c.providerName == name) = true := favoured.symm
            exact eq_of_beq asked
          simp only [if_true, if_pos (passed same)]
          exact rfl

theorem pickFromTier_favoured (wired : (e.providers name).isNone = false) (same : c.providerName = name)
    (heavy : 0 < c.weight) : (e.pickFromTier ⟨[c]⟩ []).Given (Favours name) (· = some c) := by
  rw [pickFromTier_wired (same ▸ wired)]
  intro ready favoured
  have asked : ready = (c.providerName == name) := favoured
  rw [asked, same, beq_self_eq_true]
  simp only [if_true, if_neg (Int64.not_le.mpr heavy)]
  exact fun _ _ => rfl

theorem tryCandidate_favoured (budget : 0 < e.cfg.maxAttemptsPerProvider.toInt.toNat) (attempts : List Attempt)
    (duration : Duration) :
    (e.tryCandidate c req attempts duration).Given (Favours name) fun t => t.err = none := by
  rw [Engine.tryCandidate]
  refine .perform_bind fun allowed favoured => ?_
  cases (favoured : allowed = true)
  obtain ⟨more, attempts_left⟩ := Nat.exists_eq_succ_of_ne_zero budget.ne'
  simp only [Bool.not_true, Bool.false_eq_true, if_false, attempts_left, Engine.attemptLoop]
  refine .perform_bind fun reply favoured => ?_
  cases (favoured : reply = ⟨.ok ⟨"", "", 0, "", [], ⟨0, 0, 0⟩⟩, 0⟩)
  exact fun _ _ => rfl

theorem tryTier_passed (passed : c.providerName = name → c.weight ≤ 0) (p : Engine.Progress) :
    (e.tryTier ⟨[c]⟩ req 2 [] p).Given (Favours name) (· = .advance p) := by
  rw [Engine.tryTier]
  refine .bind (pickFromTier_passed passed) ?_
  rintro _ rfl
  exact rfl

/-- No call is made to a provider without weight, or to one that is not ready. -/
theorem executeFrom_passed {cs : List Candidate} (passed : ∀ c ∈ cs, c.providerName = name → c.weight ≤ 0)
    (p : Engine.Progress) :
    (e.executeFrom req (cs.map fun c => ⟨[c]⟩) p).Given (Favours name)
      fun outcome => ∃ err, outcome = some (.error err) := by
  induction cs generalizing p with
  | nil => exact ⟨_, rfl⟩
  | cons c cs ih =>
      rw [List.map_cons, Engine.executeFrom]
      refine .bind (tryTier_passed (passed c List.mem_cons_self) p) ?_
      rintro _ rfl
      exact ih (fun c listed => passed c (List.mem_cons_of_mem _ listed)) p

/-- A ready provider with weight is reached, and answers. -/
theorem executeFrom_favoured {cs : List Candidate} (budget : 0 < e.cfg.maxAttemptsPerProvider.toInt.toNat)
    (wired : (e.providers name).isNone = false) (listed : ∃ c ∈ cs, c.providerName = name)
    (heavy : ∀ c ∈ cs, c.providerName = name → 0 < c.weight) (p : Engine.Progress) :
    (e.executeFrom req (cs.map fun c => ⟨[c]⟩) p).Given (Favours name)
      fun outcome => ∃ result, outcome = some (.ok result) := by
  induction cs generalizing p with
  | nil =>
      obtain ⟨c, member, -⟩ := listed
      cases member
  | cons c cs ih =>
      rw [List.map_cons, Engine.executeFrom]
      by_cases same : c.providerName = name
      · have tier : (e.tryTier ⟨[c]⟩ req 2 [] p).Given (Favours name) fun ended =>
            ∃ result, ended = .returned (.ok result) := by
          rw [Engine.tryTier]
          refine .bind (pickFromTier_favoured wired same (heavy c List.mem_cons_self same)) ?_
          rintro _ rfl
          refine .bind (tryCandidate_favoured budget _ _) ?_
          intro t served
          simp only [served]
          exact ⟨_, rfl⟩
        refine .bind tier ?_
        rintro _ ⟨result, rfl⟩
        exact ⟨result, rfl⟩
      · refine .bind (tryTier_passed (fun favoured => absurd favoured same) p) ?_
        rintro _ rfl
        refine ih ?_ (fun c listed => heavy c (List.mem_cons_of_mem _ listed)) p
        obtain ⟨other, member, named⟩ := listed
        rcases List.mem_cons.mp member with rfl | later
        · exact absurd named same
        · exact ⟨other, later, named⟩

end Favour

theorem read_weight_nonneg {isPrint : Char → Bool} (cfg : Gateway.Config.Accepted isPrint) (name : String) :
    0 ≤ read (new cfg.toConfig).providerWeight name := by
  rw [read, new, lookup_assigned]
  cases found : declared (sorted cfg.providers) name with
  | none => exact Int64.le_refl 0
  | some p => exact cfg.weight_nonneg ((List.mem_insertionSort _).mp (declared_some found).1)

theorem read_weight_eq_zero_iff {isPrint : Char → Bool} (cfg : Gateway.Config.Accepted isPrint)
    (name : String) :
    read (new cfg.toConfig).providerWeight name = 0 ↔ read (new cfg.toConfig).providerWeight name ≤ 0 := by
  constructor
  · intro zero
    rw [zero]
    exact Int64.le_refl 0
  · intro light
    exact Int64.le_antisymm light (read_weight_nonneg cfg name)

section Distinguished
variable (e : Engine) (req : CanonicalRequest) {r : Router} {aliasName name : String}
  {models : List (String × String)} {chain : List String}
  (entry : (r.modelAliases.lookup aliasName).getD [] = models)
  (chained : (r.fallbackChains.lookup aliasName).getD [] = chain)
  (listed : name ∈ chain) (mapped : (models.lookup name).isSome = true)
include entry chained listed mapped

/-- A mapped provider of the chain makes Execute run. -/
theorem serve_given {post : Option (Except Error Result) → Prop}
    (executes : (e.executeFrom req ((r.chainCandidates models chain).map fun c => ⟨[c]⟩) {}).Given
      (Favours name) post) :
    ∃ outcome, post outcome ∧
      (exec (fun _ => favouring name) (r.serve e aliasName req) []).2 = .ok outcome := by
  obtain ⟨model, found⟩ := Option.isSome_iff_exists.mp mapped
  have some_candidate : r.chainCandidates models chain ≠ [] :=
    List.ne_nil_of_mem (mem_chainCandidates.mpr ⟨name, listed, model, found, rfl⟩)
  have serves : (r.serve e aliasName req).Given (Favours name)
      fun served => ∃ outcome, post outcome ∧ served = .ok outcome := by
    rw [serve_chain entry chained (List.ne_nil_of_mem listed), if_neg some_candidate]
    exact .bind executes fun outcome met => ⟨outcome, met, rfl⟩
  exact serves.exec (fun _ _ => rfl) []

theorem serve_passed (light : read r.providerWeight name ≤ 0) :
    ∃ err, (exec (fun _ => favouring name) (r.serve e aliasName req) []).2 = .ok (some (.error err)) := by
  have passed : ∀ c ∈ r.chainCandidates models chain, c.providerName = name → c.weight ≤ 0 := by
    intro c member same
    obtain ⟨_, -, _, -, rfl⟩ := mem_chainCandidates.mp member
    cases same
    exact light
  obtain ⟨_, ⟨err, rfl⟩, outcome⟩ :=
    serve_given e req entry chained listed mapped (executeFrom_passed passed {})
  exact ⟨err, outcome⟩

theorem serve_favoured (budget : 0 < e.cfg.maxAttemptsPerProvider.toInt.toNat)
    (wired : (e.providers name).isSome = true) (heavy : 0 < read r.providerWeight name) :
    ∃ result, (exec (fun _ => favouring name) (r.serve e aliasName req) []).2 = .ok (some (.ok result)) := by
  obtain ⟨model, found⟩ := Option.isSome_iff_exists.mp mapped
  have present : ∃ c ∈ r.chainCandidates models chain, c.providerName = name :=
    ⟨r.offered name model, mem_chainCandidates.mpr ⟨name, listed, model, found, rfl⟩, rfl⟩
  have weights : ∀ c ∈ r.chainCandidates models chain, c.providerName = name → 0 < c.weight := by
    intro c member same
    obtain ⟨_, -, _, -, rfl⟩ := mem_chainCandidates.mp member
    cases same
    exact heavy
  have known : (e.providers name).isNone = false := by
    rw [← Option.not_isSome, wired]
    rfl
  obtain ⟨_, ⟨result, rfl⟩, outcome⟩ :=
    serve_given e req entry chained listed mapped (executeFrom_favoured budget known present weights {})
  exact ⟨result, outcome⟩

end Distinguished

theorem Agree.symm {answer answer' : Trace → (op : Op) → op.Reply} (h : Agree answer answer') :
    Agree answer' answer := by
  intro past past' same op undrawn
  exact (h past' past same.symm op undrawn).symm

theorem SameService.symm {r r' : Router} {e : Engine} {aliasName : String} {req : CanonicalRequest}
    (h : SameService e r r' aliasName req) : SameService e r' r aliasName req := by
  intro answer answer' agree
  obtain ⟨calls, outcome⟩ := h answer' answer agree.symm
  exact ⟨calls.symm, outcome.symm⟩

/-- The service can only be the same if a provider drained in one router is drained in the
other. -/
theorem SameService.drained {r r' : Router} {e : Engine} {aliasName name : String} {req : CanonicalRequest}
    {models : List (String × String)} {chain : List String} (h : SameService e r r' aliasName req)
    (entry : (r.modelAliases.lookup aliasName).getD [] = models)
    (chained : (r.fallbackChains.lookup aliasName).getD [] = chain)
    (entry' : (r'.modelAliases.lookup aliasName).getD [] = models)
    (chained' : (r'.fallbackChains.lookup aliasName).getD [] = chain)
    (budget : 0 < e.cfg.maxAttemptsPerProvider.toInt.toNat)
    (listed : name ∈ chain) (mapped : (models.lookup name).isSome = true)
    (wired : (e.providers name).isSome = true) (light : read r.providerWeight name ≤ 0) :
    read r'.providerWeight name ≤ 0 := by
  by_contra heavy
  have same := (h (fun _ => favouring name) (fun _ => favouring name) fun _ _ _ _ _ => rfl).2
  obtain ⟨err, failed⟩ := serve_passed e req entry chained listed mapped light
  obtain ⟨result, served⟩ :=
    serve_favoured e req entry' chained' listed mapped budget wired (Int64.not_le.mp heavy)
  rw [failed, served] at same
  cases same

/-- Where every provider has weight in both routers or in neither, the service is the same. -/
theorem sameService_of_weightless {r r' : Router} {e : Engine} {aliasName : String} {req : CanonicalRequest}
    {models : List (String × String)} {chain : List String}
    (entry : (r.modelAliases.lookup aliasName).getD [] = models)
    (chained : (r.fallbackChains.lookup aliasName).getD [] = chain)
    (entry' : (r'.modelAliases.lookup aliasName).getD [] = models)
    (chained' : (r'.fallbackChains.lookup aliasName).getD [] = chain) (listed : chain ≠ [])
    (weightless : ∀ name ∈ chain, (models.lookup name).isSome → (e.providers name).isSome →
      (read r.providerWeight name ≤ 0 ↔ read r'.providerWeight name ≤ 0)) :
    SameService e r r' aliasName req := by
  have pairs := forall₂_chainCandidates weightless
  apply SameService.of_lockstep
  rw [serve_chain entry chained listed, serve_chain entry' chained' listed]
  by_cases none : r.chainCandidates models chain = []
  · have none' : r'.chainCandidates models chain = [] := by
      rw [none] at pairs
      exact List.forall₂_nil_left_iff.mp pairs
    rw [if_pos none, if_pos none']
    exact rfl
  · have some' : r'.chainCandidates models chain ≠ [] := by
      intro none'
      rw [none'] at pairs
      exact none (List.forall₂_nil_right_iff.mp pairs)
    rw [if_neg none, if_neg some']
    refine .bind (executeFrom_lockstep_chain pairs {}) ?_
    rintro outcome _ rfl
    exact rfl

/-- A chain of two providers, the first with a given weight. -/
def pairChain (weight : Int64)
    (valid : (([.mock "a" 1 weight, .mock "b" 2 1] : List ProviderConfig).zipIdx.flatMap fun p =>
      p.1.validate (fun _ => true) p.2) = []) : Gateway.Config.Accepted (fun _ => true) :=
  .routing [.mock "a" 1 weight, .mock "b" 2 1] [("chat", [("a", "large"), ("b", "small")])]
    [("chat", ["a", "b"])] valid

def firstOfOne := pairChain 1 (by decide +kernel)
def firstOfFive := pairChain 5 (by decide +kernel)
def firstOfNone := pairChain 0 (by decide +kernel)

end Gateway.Router
