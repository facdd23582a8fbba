import InferenceGateway.RateLimit.Bound

/-! Reserve and Adjust over a Redis that may fail them, and what the two calls of one
request add to its buckets. -/
namespace Gateway.RateLimit

/-- What becomes of a script call: it is executed and answered, executed with the answer
lost, or never executed. -/
inductive Fate where
  | answered
  | unanswered (err : String)
  | unexecuted (err : String)
  deriving DecidableEq

def Fate.executes : Fate → Bool
  | .answered | .unanswered _ => true
  | .unexecuted _ => false

/-- What the caller gets for an answer that did not come. -/
def Fate.err : Fate → Option String
  | .answered => none
  | .unanswered err | .unexecuted err => some err

structure Limiter where
  failOpen : Bool

def Limiter.reserve (l : Limiter) (fate : Fate) (r : Redis) (s : Scopes) (cost : Int64) (now : ℚ) :
    Except String Decision × Redis :=
  let script := reserveScript r s.slots cost.toInt bucketTTL now
  match fate with
  | .answered => (decision l.failOpen (.ok script.1), script.2)
  | .unanswered err => (decision l.failOpen (.error err), script.2)
  | .unexecuted err => (decision l.failOpen (.error err), r)

/-- Adjust returns at once when there is nothing to adjust. -/
def Limiter.adjust (_ : Limiter) (fate : Fate) (r : Redis) (s : Scopes) (delta : Int64) (now : ℚ) :
    Option String × Redis :=
  if delta = 0 then (none, r)
  else
    let script := adjustScript r s.slots delta.toInt bucketTTL now
    match fate with
    | .answered => (none, script)
    | .unanswered err => (some ("ratelimit: adjust: " ++ err), script)
    | .unexecuted err => (some ("ratelimit: adjust: " ++ err), r)

def Execution.writes (r : Redis) (x : Execution) : Bool :=
  match x.command with
  | .reserve cost => decide ((reserveScript r x.scopes.slots cost bucketTTL x.time).1.allowed = 1)
  | .adjust _ => true

/-- What an execution adds to a bucket of its scopes, apart from the refill up to its time. -/
def Execution.added (r : Redis) (slot : Slot) (x : Execution) : ℚ :=
  if x.writes r then storedTokens (x.run r) slot.key slot.cap - refilled r slot x.time else 0

variable {l : Limiter} {fate : Fate} {r : Redis} {s : Scopes} {cost delta : Int64} {now : ℚ} {slot : Slot}

def reserveAdds (fate : Fate) (r : Redis) (s : Scopes) (cost : Int64) (now : ℚ) (slot : Slot) : ℚ :=
  if fate.executes then (⟨now, s, .reserve cost.toInt⟩ : Execution).added r slot else 0

def adjustAdds (fate : Fate) (r : Redis) (s : Scopes) (delta : Int64) (now : ℚ) (slot : Slot) : ℚ :=
  if fate.executes ∧ delta ≠ 0 then (⟨now, s, .adjust delta.toInt⟩ : Execution).added r slot else 0

/-- The state Adjust leaves is that of the script it had executed, if any. -/
theorem Limiter.adjust_state (l : Limiter) : (l.adjust fate r s delta now).2 =
    if fate.executes ∧ delta ≠ 0 then (⟨now, s, .adjust delta.toInt⟩ : Execution).run r else r := by
  unfold Limiter.adjust
  by_cases zero : delta = 0
  · simp [zero]
  · cases fate <;> simp [zero, Fate.executes, Execution.run]

/-- What Reserve had recorded, given that it let the request through: the cost, unless the
script was never executed, or refused it with its answer lost. -/
def recorded (fate : Fate) (r : Redis) (s : Scopes) (cost : Int64) (now : ℚ) : Int :=
  match fate with
  | .answered => cost.toInt
  | .unanswered _ =>
      if (reserveScript r s.slots cost.toInt bucketTTL now).1.allowed = 1 then cost.toInt else 0
  | .unexecuted _ => 0

/-- What Adjust gives back at most. -/
def returned (fate : Fate) (delta : Int64) : Int := if fate.executes then delta.toInt else 0

theorem reserveAdds_eq {d : Decision} (member : slot ∈ s.slots)
    (answer : (l.reserve fate r s cost now).1 = .ok d) (allowed : d.allowed = true) :
    reserveAdds fate r s cost now slot = -recorded fate r s cost now := by
  have granted : (reserveScript r s.slots cost.toInt bucketTTL now).1.allowed = 1 →
      (⟨now, s, .reserve cost.toInt⟩ : Execution).added r slot = -cost.toInt := by
    intro granted
    have stored := reserveScript_stored (slots_nodup s) member granted
    simp only [Execution.added, Execution.writes, granted, decide_true, if_true, Execution.run]
    rw [stored]
    ring
  cases fate with
  | answered =>
      have accepted : (reserveScript r s.slots cost.toInt bucketTTL now).1.allowed = 1 := by
        cases answer
        simpa [decision] using allowed
      exact granted accepted
  | unanswered err =>
      simp only [reserveAdds, Fate.executes, if_true, recorded]
      split
      · rename_i accepted
        exact granted accepted
      · rename_i refused
        simp [Execution.added, Execution.writes, refused]
  | unexecuted err => simp [reserveAdds, Fate.executes, recorded]

theorem adjust_added (member : slot ∈ s.slots) :
    (⟨now, s, .adjust delta.toInt⟩ : Execution).added r slot =
      min slot.cap (refilled r slot now + delta.toInt) - refilled r slot now := by
  simp only [Execution.added, Execution.writes, if_true, Execution.run, storedTokens,
    adjustScript_of_mem (slots_nodup s) member]
  rfl

theorem adjustAdds_le (member : slot ∈ s.slots) :
    adjustAdds fate r s delta now slot ≤ returned fate delta := by
  unfold adjustAdds returned
  by_cases done : fate.executes = true ∧ delta ≠ 0
  · rw [if_pos done, if_pos done.1, adjust_added member]
    have := min_le_right slot.cap (refilled r slot now + delta.toInt)
    linarith
  · rw [if_neg done]
    by_cases executes : fate.executes = true
    · have zero : delta = 0 := by
        by_contra other
        exact done ⟨executes, other⟩
      simp [zero]
    · simp [executes]

/-- A bucket with room for the whole delta gets the whole delta. -/
theorem adjustAdds_of_room (member : slot ∈ s.slots)
    (room : refilled r slot now + delta.toInt ≤ slot.cap) :
    adjustAdds fate r s delta now slot = returned fate delta := by
  unfold adjustAdds returned
  by_cases executes : fate.executes = true
  · by_cases zero : delta = 0
    · simp [zero]
    · rw [if_pos ⟨executes, zero⟩, if_pos executes, adjust_added member, min_eq_right room]
      ring
  · simp [executes]

/-- Buckets short of a slot's capacity by a delta that would be given, or full. -/
def short (slot : Slot) (delta : ℚ) : Redis := fun _ => some ⟨slot.cap - max 0 delta, 0, 0⟩

theorem short_refilled (slot : Slot) (delta : ℚ) :
    refilled (short slot delta) slot 0 = slot.cap - max 0 delta := by
  have low : slot.cap - max 0 delta ≤ slot.cap := by
    have := le_max_left 0 delta
    linarith
  simp only [refilled, short, Option.map_some, Bucket.stored, TokenBucket.level]
  simp only [sub_self, max_self, zero_mul, add_zero]
  exact min_eq_right low

theorem short_room (slot : Slot) (delta : ℚ) : refilled (short slot delta) slot 0 + delta ≤ slot.cap := by
  have := le_max_right 0 delta
  rw [short_refilled]
  linarith

/-- The two calls of an admitted request leave no bucket richer, whatever the buckets hold by
the time of its Adjust, exactly if Adjust gives back no more than Reserve had recorded. -/
theorem adds_nonpos_iff {reserving adjusting : Fate} {d : Decision}
    (answer : (l.reserve reserving r s cost now).1 = .ok d) (allowed : d.allowed = true) :
    (∀ r' now', ∀ slot ∈ s.slots,
        reserveAdds reserving r s cost now slot + adjustAdds adjusting r' s delta now' slot ≤ 0) ↔
      returned adjusting delta ≤ recorded reserving r s cost now := by
  constructor
  · intro never
    obtain ⟨slot, member⟩ : ∃ slot, slot ∈ s.slots := ⟨_, List.mem_cons_self⟩
    have sum := never (short slot delta.toInt) 0 slot member
    rw [reserveAdds_eq member answer allowed, adjustAdds_of_room member (short_room slot _)] at sum
    have : (returned adjusting delta : ℚ) ≤ recorded reserving r s cost now := by linarith
    exact_mod_cast this
  · intro covered r' now' slot member
    have given : adjustAdds adjusting r' s delta now' slot ≤ returned adjusting delta :=
      adjustAdds_le member
    have covered' : (returned adjusting delta : ℚ) ≤ recorded reserving r s cost now := by
      exact_mod_cast covered
    rw [reserveAdds_eq member answer allowed]
    linarith

/-- The refund of `amount` reached every bucket: its balance grew by it, up to capacity. -/
def Refunded (r r' : Redis) (s : Scopes) (amount now : ℚ) : Prop :=
  ∀ slot ∈ s.slots, balance r' slot.key slot.cap now =
    min slot.cap (balance r slot.key slot.cap now + amount)

theorem refunded_zero (r : Redis) (s : Scopes) (now : ℚ) : Refunded r r s 0 now := by
  intro slot _
  have full : balance r slot.key slot.cap now ≤ slot.cap := TokenBucket.level_le_cap
  rw [add_zero, min_eq_right full]

/-- Adjust refunds its delta, whatever the buckets hold, exactly if it is executed or there is
nothing to refund. -/
theorem adjust_refunded_iff (l : Limiter) (fate : Fate) (s : Scopes) (delta : Int64) :
    (∀ r now, Refunded r (l.adjust fate r s delta now).2 s delta.toInt now) ↔
      fate.executes = true ∨ delta = 0 := by
  by_cases zero : delta = 0
  · subst zero
    refine iff_of_true (fun r now => ?_) (.inr rfl)
    have same : (l.adjust fate r s 0 now).2 = r := by simp [Limiter.adjust]
    rw [same]
    simpa using refunded_zero r s now
  · by_cases executes : fate.executes = true
    · refine iff_of_true (fun r now slot member => ?_) (.inl executes)
      rw [Limiter.adjust_state, if_pos ⟨executes, zero⟩, balance]
      simp only [Execution.run, adjustScript_of_mem (slots_nodup s) member, Option.map_some,
        Bucket.stored, TokenBucket.level]
      simp only [sub_self, max_self, zero_mul, add_zero, ← min_assoc, min_self]
      rfl
    · refine iff_of_false ?_ (by simp [executes, zero])
      intro always
      obtain ⟨slot, member⟩ : ∃ slot, slot ∈ s.slots := ⟨_, List.mem_cons_self⟩
      have kept := always (short slot delta.toInt) 0 slot member
      rw [Limiter.adjust_state, if_neg (fun both => executes both.1), ← refilled_eq_balance,
        min_eq_right (short_room slot _)] at kept
      have none : (delta.toInt : ℚ) = 0 := by linarith
      apply zero
      rw [← Int64.toInt_inj, Int64.toInt_zero]
      exact_mod_cast none

end Gateway.RateLimit
