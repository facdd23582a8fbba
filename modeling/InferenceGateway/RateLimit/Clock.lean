import InferenceGateway.RateLimit.Limiter
import InferenceGateway.RateLimit.Reservation
import InferenceGateway.TokenBucket.Credit

/-! Refill under a Redis clock that may step back. Both scripts clamp a negative elapsed time
to zero and still store their reading as the last refill, so time is credited again when the
clock returns. -/
namespace Gateway.RateLimit
open TokenBucket (latest advance NoReturn)

/-- The refill an execution writes into bucket `k`. -/
def Execution.credit (k : String) (cap : ℚ) (r : Redis) (x : Execution) : ℚ :=
  if k ∈ x.scopes.slots.map Slot.key ∧ x.writes r then
    max 0 (balance r k cap x.time - storedTokens r k cap)
  else 0

def credited (k : String) (cap : ℚ) : Redis → List Execution → ℚ
  | _, [] => 0
  | r, x :: xs => x.credit k cap r + credited k cap (x.run r) xs

variable {k : String} {cap : ℚ}

theorem Execution.event_writes (r : Redis) (x : Execution) :
    (x.event k r).writes = true ↔ k ∈ x.scopes.slots.map Slot.key ∧ x.writes r = true := by
  unfold Execution.event Execution.writes
  by_cases touched : k ∈ x.scopes.slots.map Slot.key
  · rw [if_pos touched, and_iff_right touched]
    cases x.command with
    | adjust delta => exact iff_of_true rfl rfl
    | reserve cost =>
        simp only [decide_eq_true_eq]
        split
        · rename_i granted
          exact iff_of_true rfl granted
        · rename_i refused
          exact iff_of_false (by simp [TokenBucket.Event.writes]) refused
  · rw [if_neg touched]
    exact iff_of_false (by simp [TokenBucket.Event.writes]) fun both => touched both.1

theorem Execution.event_credit (r : Redis) (x : Execution) :
    (x.event k r).credit cap (cap / 60) ((r k).map Bucket.stored) x.time = x.credit k cap r := by
  unfold TokenBucket.Event.credit Execution.credit
  simp only [x.event_writes]
  rfl

/-- The refill of a run is that of the abstract bucket over the run's events. -/
theorem credited_refines (r : Redis) {xs : List Execution}
    (fixed : ∀ x ∈ xs, ∀ slot ∈ x.scopes.slots, slot.key = k → slot.cap = cap) :
    credited k cap r xs =
      TokenBucket.credited cap (cap / 60) ((r k).map Bucket.stored) (events k r xs) := by
  induction xs generalizing r with
  | nil => rfl
  | cons x xs ih =>
      have here := x.run_refines r (fixed x List.mem_cons_self)
      have later := ih (x.run r) fun y member => fixed y (List.mem_cons_of_mem _ member)
      rw [credited, events, TokenBucket.credited, x.event_credit, ← here, later]

/-- A run of charges of one token each on the same scopes. -/
def charges (s : Scopes) (readings : List ℚ) : List Execution :=
  readings.map fun t => ⟨t, s, .adjust (-1)⟩

theorem events_charges {s : Scopes} (touched : k ∈ s.slots.map Slot.key) (r : Redis)
    (readings : List ℚ) :
    events k r (charges s readings) = readings.map fun t => (t, .give (-1)) := by
  induction readings generalizing r with
  | nil => rfl
  | cons t readings ih =>
      have event : (⟨t, s, .adjust (-1)⟩ : Execution).event k r = .give (-1) := if_pos touched
      have rest := ih ((⟨t, s, .adjust (-1)⟩ : Execution).run r)
      unfold charges at rest ⊢
      rw [List.map_cons, events, event, rest, List.map_cons]

theorem slots_fixed {s : Scopes} {slot other : Slot} (member : slot ∈ s.slots)
    (member' : other ∈ s.slots) (same : other.key = slot.key) : other.cap = slot.cap :=
  congrArg Slot.cap (List.inj_on_of_nodup_map (slots_nodup s) member' member same)

/-- Which clocks mint nothing. Over all contents of a bucket and all executions that take
given readings, the refill credited is at most what the clock gains beyond the stored last
refill, exactly if the readings never advance again after a step back. -/
theorem clock_mints_nothing_iff {s : Scopes} {slot : Slot} (member : slot ∈ s.slots)
    (positive : 0 < slot.cap) (last : ℚ) (readings : List ℚ) :
    (∀ (r : Redis) (b : Bucket) (xs : List Execution), r slot.key = some b → b.lastRefill = last →
        xs.map Execution.time = readings →
        (∀ x ∈ xs, ∀ other ∈ x.scopes.slots, other.key = slot.key → other.cap = slot.cap) →
        credited slot.key slot.cap r xs ≤ slot.cap / 60 * (latest last readings - last)) ↔
      NoReturn last readings := by
  have rate : 0 < slot.cap / 60 := by positivity
  constructor
  · intro bounded
    -- A bucket low enough never to be full shows every advance of the clock.
    let b : Bucket := ⟨slot.cap - slot.cap / 60 * advance last readings, last, last⟩
    have fixed : ∀ x ∈ charges s readings, ∀ other ∈ x.scopes.slots, other.key = slot.key →
        other.cap = slot.cap := by
      intro x among other inside same
      obtain ⟨t, -, rfl⟩ := List.mem_map.mp among
      exact slots_fixed member inside same
    have times : (charges s readings).map Execution.time = readings := by
      simp [charges, Function.comp_def]
    have bound := bounded (fun _ => some b) b (charges s readings) rfl rfl times fixed
    rw [credited_refines _ fixed, events_charges (List.mem_map_of_mem member)] at bound
    have room : b.tokens + slot.cap / 60 * advance last readings ≤ slot.cap := (sub_add_cancel _ _).le
    have all := TokenBucket.credited_charges rate.le (show (0 : ℚ) ≤ 1 by norm_num) room
    exact TokenBucket.advance_le_iff.mp (le_of_mul_le_mul_left (all ▸ bound) rate)
  · intro noReturn r b xs stored start times fixed
    have sub : (TokenBucket.written (events slot.key r xs)).Sublist readings := by
      rw [← times, ← events_times slot.key r xs]
      exact TokenBucket.written_sublist _
    have gained : advance last (TokenBucket.written (events slot.key r xs)) ≤
        latest last readings - last :=
      (TokenBucket.advance_le_iff.mpr (noReturn.sublist sub)).trans
        (sub_le_sub_right (TokenBucket.latest_sublist sub) last)
    rw [credited_refines r fixed, stored]
    subst start
    exact (TokenBucket.credited_le rate.le _).trans (mul_le_mul_of_nonneg_left gained rate.le)

/-- A clock that gains twenty seconds and then falls back for good credits at most twenty. -/
theorem falling_clock_mints_nothing :
    NoReturn (0 : ℚ) [10, 20, 5] ∧
      credited acme.keySlot.key 60 (halfFull 0) (charges acme [10, 20, 5]) ≤ 60 / 60 * (20 - 0) := by
  have rises : NoReturn (0 : ℚ) [10, 20, 5] := by
    refine .inl ⟨by norm_num, .inl ⟨by norm_num, .inr ?_⟩⟩
    rw [List.isChain_pair]
    norm_num
  have member : acme.keySlot ∈ acme.slots := by decide +kernel
  have bounded := (clock_mints_nothing_iff member (by decide +kernel) 0 [10, 20, 5]).mpr rises
  exact ⟨rises, bounded (halfFull 0) ⟨30, 0, 0 + bucketTTL⟩ _ rfl rfl rfl (by decide +kernel)⟩

/-- The clock is set back by fifty seconds and returns: it has gained nothing, and the bucket
is credited the 31 tokens to its capacity. -/
theorem returning_clock_mints :
    credited acme.keySlot.key 60 (halfFull 100) (charges acme [50, 100]) = 31 ∧
      (60 / 60 * (latest 100 [50, 100] - 100) : ℚ) = 0 := by
  decide +kernel

end Gateway.RateLimit
