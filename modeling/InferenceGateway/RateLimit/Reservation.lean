import InferenceGateway.RateLimit.Bound
import InferenceGateway.TokenBucket.Refill

/-! One reservation and its repetition: what reserve.lua writes and reports, what a full
refund leaves of it, and whether waiting as told is enough. -/
namespace Gateway.RateLimit

def Scopes.keySlot (s : Scopes) : Slot := ⟨"key", bucketKey "key" s.keyID, s.keyCapacity.toInt⟩

variable {r : Redis} {s : Scopes} {slot : Slot} {cost now : ℚ}

theorem reserveScript_written {slots : List Slot} {ttl : ℚ} (distinct : (slots.map Slot.key).Nodup)
    (member : slot ∈ slots) (enough : ∀ slot ∈ slots, cost ≤ refilled r slot now) :
    (reserveScript r slots cost ttl now).2 slot.key =
      some ⟨refilled r slot now - cost, now, now + ttl⟩ := by
  have entries : ((slots.map fun slot => (slot, refilled r slot now)).map
      fun entry => entry.1.key).Nodup := by
    rw [List.map_map]
    exact distinct
  rw [reserveScript_of_enough enough]
  exact deductSlots_of_mem entries (List.mem_map_of_mem member)

/-- All or nothing. reserve.lua allows exactly if every refilled balance covers the cost;
rejecting, it writes nothing and names the first short scope; allowing, it leaves every
bucket at its balance less the cost and returns the floor of what the key has left. -/
theorem reserve_all_or_nothing (r : Redis) (s : Scopes) (cost now : ℚ) :
    ((reserveScript r s.slots cost bucketTTL now).1.allowed = 1 ↔
        ∀ slot ∈ s.slots, cost ≤ refilled r slot now) ∧
      ((reserveScript r s.slots cost bucketTTL now).1.allowed ≠ 1 →
        (reserveScript r s.slots cost bucketTTL now).2 = r ∧
          (s.slots.find? fun slot => refilled r slot now < cost).map Slot.scope =
            some (reserveScript r s.slots cost bucketTTL now).1.limitingScope) ∧
      ((reserveScript r s.slots cost bucketTTL now).1.allowed = 1 →
        (∀ slot ∈ s.slots, (reserveScript r s.slots cost bucketTTL now).2 slot.key =
            some ⟨refilled r slot now - cost, now, now + bucketTTL⟩) ∧
          (∀ k, k ∉ s.slots.map Slot.key → (reserveScript r s.slots cost bucketTTL now).2 k = r k) ∧
          (reserveScript r s.slots cost bucketTTL now).1.remainingKeyTokens =
            ⌊refilled r s.keySlot now - cost⌋) := by
  have granted := reserveScript_granted_iff r s.slots cost bucketTTL now
  refine ⟨granted, ?_, ?_⟩
  · intro refused
    cases first : s.slots.find? (runsShort r cost now) with
    | none => exact absurd (granted.mpr (enough_of_find.mp first)) refused
    | some slot =>
        rw [reserveScript_of_short first]
        exact ⟨rfl, congrArg (Option.map Slot.scope) first⟩
  · intro allowed
    have enough := granted.mp allowed
    refine ⟨fun slot member => reserveScript_written (slots_nodup s) member enough, ?_, ?_⟩
    · intro k other
      have absent : k ∉ (s.slots.map fun slot => (slot, refilled r slot now)).map
          fun entry => entry.1.key := by
        rw [List.map_map]
        exact other
      rw [reserveScript_of_enough enough]
      exact deductSlots_of_not_mem absent
    · rw [reserveScript_of_enough enough]
      rfl

/-- Two scopes of one request with one name are one. -/
theorem slot_of_scope {other : Slot} (member : slot ∈ s.slots) (member' : other ∈ s.slots)
    (same : slot.scope = other.scope) : slot = other := by
  simp only [Scopes.slots, List.mem_cons, List.not_mem_nil, or_false] at member member'
  rcases member with rfl | rfl | rfl <;> rcases member' with rfl | rfl | rfl <;> simp at same ⊢

theorem limited_iff (member : slot ∈ s.slots) :
    (reserveScript r s.slots cost bucketTTL now).1.limitingScope = slot.scope ↔
      s.slots.find? (runsShort r cost now) = some slot := by
  cases first : s.slots.find? (runsShort r cost now) with
  | none =>
      rw [reserveScript_of_enough (enough_of_find.mp first)]
      refine iff_of_false ?_ (by simp)
      simp only [Scopes.slots, List.mem_cons, List.not_mem_nil, or_false] at member
      rcases member with rfl | rfl | rfl <;> simp
  | some limiting =>
      rw [reserveScript_of_short first, Option.some.injEq]
      exact ⟨slot_of_scope (List.mem_of_find?_eq_some first) member, congrArg Slot.scope⟩

/-- A search that finds less stops at the same place, or goes past it. -/
theorem find_eq_some_iff {α : Type} {found wanted : α → Bool} {l : List α} {a : α}
    (first : l.find? found = some a) (fewer : ∀ x ∈ l, wanted x = true → found x = true) :
    l.find? wanted = some a ↔ wanted a = true := by
  constructor
  · exact List.find?_some
  · intro hit
    obtain ⟨-, before, after, split, missed⟩ := List.find?_eq_some_iff_append.mp first
    refine List.find?_eq_some_iff_append.mpr ⟨hit, before, after, split, fun x earlier => ?_⟩
    cases early : wanted x with
    | false => rfl
    | true =>
        have passed := missed x earlier
        rw [fewer x (split ▸ List.mem_append_left _ earlier) early] at passed
        exact passed

/-- A full refund leaves no trace. If a reservation is allowed no earlier than the stored
refill, and its cost is given back with the bucket untouched in between, the bucket is from
then on at the balance it would have had without both. An adjustment by zero is not sent. -/
theorem refund_leaves_no_trace {r' : Redis} {t₁ t₂ t : ℚ} (member : slot ∈ s.slots)
    (positive : 0 < slot.cap) (nonneg : 0 ≤ cost)
    (current : ∀ b, r slot.key = some b → b.lastRefill ≤ t₁) (order : t₁ ≤ t₂) (after : t₂ ≤ t)
    (allowed : (reserveScript r s.slots cost bucketTTL t₁).1.allowed = 1)
    (undisturbed : r' slot.key = (reserveScript r s.slots cost bucketTTL t₁).2 slot.key) :
    refilled (adjustScript r' s.slots cost bucketTTL t₂) slot t = refilled r slot t ∧
      (cost = 0 → refilled r' slot t = refilled r slot t) := by
  have rate : 0 ≤ slot.cap / 60 := by positivity
  have stored : ∀ b, (r slot.key).map Bucket.stored = some b → b.last ≤ t₁ := by
    intro b same
    obtain ⟨bucket, found, rfl⟩ := Option.map_eq_some_iff.mp same
    exact current bucket found
  have reserved : (reserveScript r s.slots cost bucketTTL t₁).2 slot.key = _ :=
    reserveScript_written (slots_nodup s) member
      ((reserveScript_granted_iff r s.slots cost bucketTTL t₁).mp allowed)
  rw [← undisturbed] at reserved
  constructor
  · rw [refilled, adjustScript_of_mem (slots_nodup s) member, refilled, reserved]
    exact TokenBucket.level_refund rate stored order after nonneg
  · rintro rfl
    have kept : refilled r' slot t =
        min slot.cap (refilled r slot t₁ - 0 + (t - t₁) * (slot.cap / 60)) := by
      rw [refilled, reserved]
      exact TokenBucket.level_some_later (order.trans after)
    rw [kept, sub_zero]
    exact (TokenBucket.level_later rate stored (order.trans after)).symm

/-- The key bucket of capacity 60 with 30 tokens, last refilled at `last`. -/
def halfFull (last : ℚ) : Redis := fun k =>
  if k = "bucket:key:k1" then some ⟨30, last, last + bucketTTL⟩ else none

/-- Forty of fifty tokens taken at 20 and given back at 25: at 28 there are 58 all the same. -/
theorem forty_refunded :
    refilled (adjustScript (reserveScript (halfFull 0) acme.slots 40 bucketTTL 20).2 acme.slots 40
        bucketTTL 25) acme.keySlot 28 = 58 ∧
      refilled (halfFull 0) acme.keySlot 28 = 58 := by
  have untouched : refilled (halfFull 0) acme.keySlot 28 = 58 := by decide +kernel
  have member : acme.keySlot ∈ acme.slots := by decide +kernel
  have current : ∀ b, halfFull 0 acme.keySlot.key = some b → b.lastRefill ≤ 20 := by
    intro b found
    cases (show some (⟨30, 0, 0 + bucketTTL⟩ : Bucket) = some b from found)
    norm_num
  have allowed : (reserveScript (halfFull 0) acme.slots 40 bucketTTL 20).1.allowed = 1 := by decide +kernel
  have refunded := refund_leaves_no_trace member (by decide +kernel) (by norm_num) current
    (by norm_num : (20 : ℚ) ≤ 25) (by norm_num : (25 : ℚ) ≤ 28) allowed rfl
  exact ⟨refunded.1.trans untouched, untouched⟩

/-- Whether waiting as told is enough. Repeated after the advertised milliseconds with
nothing in between, a rejected reservation is no longer rejected by the same scope exactly
if its cost fits the scope's capacity and the bucket was not last refilled later than now,
by more than the wait was rounded up. -/
theorem retryAfter_suffices_iff (positive : ∀ slot ∈ s.slots, 0 < slot.cap) (member : slot ∈ s.slots)
    (limited : (reserveScript r s.slots cost bucketTTL now).1.limitingScope = slot.scope) :
    let rejected := reserveScript r s.slots cost bucketTTL now
    let wait : ℚ := rejected.1.retryAfterMs / 1000
    (reserveScript rejected.2 s.slots cost bucketTTL (now + wait)).1.limitingScope ≠ slot.scope ↔
      cost ≤ slot.cap ∧ ∀ b, r slot.key = some b →
        b.lastRefill - now ≤ wait - (cost - refilled r slot now) / (slot.cap / 60) := by
  have rate : 0 < slot.cap / 60 := div_pos (positive slot member) (by norm_num)
  have first := (limited_iff member).mp limited
  have low : refilled r slot now < cost := by simpa [runsShort] using List.find?_some first
  rw [reserveScript_of_short first]
  simp only [rejection]
  have covers : (cost - refilled r slot now) / (slot.cap / 60) ≤
      (⌈(cost - refilled r slot now) / (slot.cap / 60) * 1000⌉ : ℚ) / 1000 := by
    rw [le_div_iff₀ (by norm_num)]
    exact Int.le_ceil _
  have wait : 0 ≤ (⌈(cost - refilled r slot now) / (slot.cap / 60) * 1000⌉ : ℚ) / 1000 :=
    (div_nonneg (sub_nonneg.mpr low.le) rate.le).trans covers
  generalize (⌈(cost - refilled r slot now) / (slot.cap / 60) * 1000⌉ : ℚ) / 1000 = pause at covers wait ⊢
  have fewer : ∀ other ∈ s.slots, runsShort r cost (now + pause) other = true →
      runsShort r cost now other = true := by
    intro other among low
    simp only [runsShort, decide_eq_true_eq] at low ⊢
    have rate : 0 ≤ other.cap / 60 := div_nonneg (positive other among).le (by norm_num)
    exact (TokenBucket.level_mono rate (le_add_of_nonneg_right wait)).trans_lt low
  rw [ne_eq, limited_iff member, find_eq_some_iff first fewer]
  simp only [runsShort, decide_eq_true_eq, not_lt]
  have enough := TokenBucket.le_level_after_wait_iff rate low covers
  simp only [Option.map_eq_some_iff] at enough
  refine enough.trans (and_congr_right fun _ => ⟨fun all b found => ?_, ?_⟩)
  · exact all b.stored ⟨b, found, rfl⟩
  · rintro all _ ⟨b, found, rfl⟩
    exact all b found

/-- Fifty tokens asked of a bucket at forty: ten seconds later the key has them. -/
theorem ten_seconds_suffice :
    (reserveScript (halfFull 0) acme.slots 50 bucketTTL 10).1 = ⟨0, 10000, "key", 0⟩ ∧
      (reserveScript (halfFull 0) acme.slots 50 bucketTTL (10 + 10000 / 1000)).1.limitingScope ≠ "key" := by
  have first : acme.slots.find? (runsShort (halfFull 0) 50 10) = some acme.keySlot := by decide +kernel
  have rejected : reserveScript (halfFull 0) acme.slots 50 bucketTTL 10 =
      (⟨0, 10000, "key", 0⟩, halfFull 0) :=
    (reserveScript_of_short first).trans (by
      rw [show rejection (halfFull 0) 50 10 acme.keySlot = ⟨0, 10000, "key", 0⟩ by decide +kernel])
  have limited : (reserveScript (halfFull 0) acme.slots 50 bucketTTL 10).1.limitingScope =
      acme.keySlot.scope := by
    rw [rejected]
    rfl
  have enough := (retryAfter_suffices_iff (by decide +kernel) (by decide +kernel) limited).mpr (by
      rw [rejected]
      refine ⟨by decide +kernel, fun b found => ?_⟩
      cases (show some (⟨30, 0, 0 + bucketTTL⟩ : Bucket) = some b from found)
      decide +kernel)
  rw [rejected] at enough
  simp only [Int.cast_ofNat] at enough
  exact ⟨congrArg Prod.fst rejected, enough⟩

/-- A cost above the capacity is rejected again after the second it was told to wait, and so
is one within it when the bucket was last refilled a minute ahead of the clock. -/
theorem waiting_in_vain :
    (reserveScript (fun _ => none) acme.slots 61 bucketTTL 0).1 = ⟨0, 1000, "key", 0⟩ ∧
      (reserveScript (fun _ => none) acme.slots 61 bucketTTL (0 + 1000 / 1000)).1.limitingScope = "key" ∧
      (reserveScript (halfFull 100) acme.slots 40 bucketTTL 40).1 = ⟨0, 10000, "key", 0⟩ ∧
      (reserveScript (halfFull 100) acme.slots 40 bucketTTL (40 + 10000 / 1000)).1.limitingScope =
        "key" := by
  decide +kernel

end Gateway.RateLimit
