import InferenceGateway.Breaker.Breaker

/-! The half-open quota of one breaker, against a number of admitted calls whose outcome
is still to come. -/
namespace Gateway.Breaker

/-- In half-open the probe slots left, the calls still out and the wins so far cover the
wins that closing takes, and closing is not overdue. -/
def Metered (b : Breaker) (out : Int) : Prop :=
  b.state = .halfOpen → 0 ≤ b.halfOpenAllowed ∧ b.halfOpenWins < b.cfg.halfOpenProbes ∧
    b.cfg.halfOpenProbes ≤ b.halfOpenAllowed + b.halfOpenWins + out

variable {b : Breaker} {now out out' : Int} {clock : Readings}

theorem Metered.mono (h : b.Metered out) (more : out ≤ out') : b.Metered out' := by
  intro half
  obtain ⟨left, wins, covered⟩ := h half
  exact ⟨left, wins, by omega⟩

theorem newBreaker_metered (providerName model : String) (cfg : Config) :
    (newBreaker providerName model cfg).Metered out := by
  intro half
  cases half

/-- Whether Allow finds an open breaker whose cooldown is over. -/
def reopens (b : Breaker) (now : Int) : Prop := b.state = .opened ∧ b.cooldownElapsed now = true

theorem enterHalfOpen_of_reopens (h : b.reopens now) : b.enterHalfOpen now =
    { b with state := .halfOpen, halfOpenAllowed := b.cfg.halfOpenProbes, halfOpenWins := 0 } :=
  if_pos h

theorem enterHalfOpen_of_not_reopens (h : ¬ b.reopens now) : b.enterHalfOpen now = b := if_neg h

theorem allow_cfg : (b.allow now).2.cfg = b.cfg := by
  by_cases h : b.reopens now
  · simp only [allow, enterHalfOpen_of_reopens h]
    split <;> rfl
  · simp only [allow, enterHalfOpen_of_not_reopens h]
    split
    · rfl
    · split <;> rfl
    · rfl

/-- Allow changes the state only from open, to half-open with no wins yet. -/
theorem allow_cases (b : Breaker) (now : Int) :
    (b.state = .opened ∧ (b.allow now).2.state = .halfOpen ∧ (b.allow now).2.halfOpenWins = 0) ∨
      ((b.allow now).2.state = b.state ∧ (b.allow now).2.halfOpenWins = b.halfOpenWins ∧
        ((b.allow now).1 = true → b.state ≠ .opened)) := by
  by_cases h : b.reopens now
  · refine .inl ⟨h.1, ?_⟩
    simp only [allow, enterHalfOpen_of_reopens h]
    split <;> exact ⟨rfl, rfl⟩
  · refine .inr ?_
    simp only [allow, enterHalfOpen_of_not_reopens h]
    cases state : b.state with
    | closed => exact ⟨state, rfl, nofun⟩
    | opened => exact ⟨state, rfl, nofun⟩
    | halfOpen =>
        simp only
        split
        · exact ⟨state, rfl, nofun⟩
        · exact ⟨rfl, rfl, nofun⟩

/-- Entering half-open starts a fresh quota with one call out. -/
theorem allow_metered_of_reopens (probes : 1 ≤ b.cfg.halfOpenProbes) (h : b.reopens now) :
    (b.allow now).1 = true ∧ (b.allow now).2.Metered 1 := by
  have positive : ¬ b.cfg.halfOpenProbes ≤ 0 := by omega
  simp only [allow, enterHalfOpen_of_reopens h, if_neg positive]
  refine ⟨trivial, ?_⟩
  intro _
  refine ⟨?_, ?_, ?_⟩ <;> simp <;> omega

theorem allow_metered (h : b.Metered out) (stays : ¬ b.reopens now) :
    ((b.allow now).1 = true → (b.allow now).2.Metered (out + 1)) ∧
      ((b.allow now).1 = false → (b.allow now).2.Metered out) := by
  simp only [allow, enterHalfOpen_of_not_reopens stays]
  cases hs : b.state with
  | closed =>
      simp only
      refine ⟨fun _ => h.mono (by omega), nofun⟩
  | opened =>
      simp only
      exact ⟨nofun, fun _ => h⟩
  | halfOpen =>
      simp only
      obtain ⟨left, wins, covered⟩ := h hs
      split
      · exact ⟨nofun, fun _ => h⟩
      · refine ⟨fun _ _ => ⟨?_, wins, ?_⟩, nofun⟩ <;> simp only <;> omega

theorem recordSuccess_cfg : (b.recordSuccess now).cfg = b.cfg := by
  unfold recordSuccess
  split
  · simp only
    split <;> rfl
  · rfl
  · rfl

/-- A success in half-open turns a call that was out into a win. -/
theorem recordSuccess_metered (h : b.Metered out) : (b.recordSuccess now).Metered (out - 1) := by
  unfold recordSuccess
  cases hs : b.state with
  | halfOpen =>
      obtain ⟨left, wins, covered⟩ := h hs
      simp only
      split
      · intro half
        cases half
      · intro _
        refine ⟨left, ?_, ?_⟩ <;> simp only <;> omega
  | closed =>
      intro half
      change b.state = _ at half
      rw [hs] at half
      cases half
  | opened =>
      intro half
      rw [hs] at half
      cases half

theorem recordFailure_cfg : (b.recordFailure clock).cfg = b.cfg := by
  unfold recordFailure
  split
  · rfl
  · simp only
    split <;> rfl
  · rfl

/-- No failure leaves a breaker half-open. -/
theorem recordFailure_not_halfOpen : (b.recordFailure clock).state ≠ .halfOpen := by
  unfold recordFailure
  cases hs : b.state with
  | halfOpen => simp
  | closed =>
      simp only
      split
      · simp
      · change b.state ≠ _
        rw [hs]
        simp
  | opened =>
      simp only
      rw [hs]
      simp

theorem recordFailure_metered : (b.recordFailure clock).Metered out := by
  intro half
  exact absurd half recordFailure_not_halfOpen

end Gateway.Breaker
