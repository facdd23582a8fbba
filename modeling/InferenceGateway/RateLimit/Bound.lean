import InferenceGateway.RateLimit.Scripts

/-! Every script execution acts on each bucket as at most one event of an abstract token
bucket, and the rate bound of the abstract bucket carries over to any run of scripts. -/
namespace Gateway.RateLimit
open TokenBucket (level)

inductive Command where
  | reserve (cost : ℚ)
  | adjust (delta : ℚ)

/-- One execution of one of the scripts, at the time its TIME call returns. -/
structure Execution where
  time : ℚ
  scopes : Scopes
  command : Command

def Execution.run (r : Redis) (x : Execution) : Redis :=
  match x.command with
  | .reserve cost => (reserveScript r x.scopes.slots cost bucketTTL x.time).2
  | .adjust delta => adjustScript r x.scopes.slots delta bucketTTL x.time

def runAll (r : Redis) (xs : List Execution) : Redis := xs.foldl Execution.run r

/-- What an execution takes out of bucket `k`: the cost of an accepted reservation, minus
the delta of an adjustment. -/
def Execution.charge (k : String) (r : Redis) (x : Execution) : ℚ :=
  if k ∈ x.scopes.slots.map Slot.key then
    match x.command with
    | .reserve cost =>
        if (reserveScript r x.scopes.slots cost bucketTTL x.time).1.allowed = 1 then cost else 0
    | .adjust delta => -delta
  else 0

def charged (k : String) : Redis → List Execution → ℚ
  | _, [] => 0
  | r, x :: xs => x.charge k r + charged k (x.run r) xs

/-- The balance of bucket `k`, refilled up to `now`; a missing bucket is full. -/
def balance (r : Redis) (k : String) (cap now : ℚ) : ℚ :=
  level cap (cap / 60) ((r k).map Bucket.stored) now

/-- The tokens stored for bucket `k`, without refill. -/
def storedTokens (r : Redis) (k : String) (cap : ℚ) : ℚ :=
  TokenBucket.held cap ((r k).map Bucket.stored)

/-- The abstract event an execution is for bucket `k`. -/
def Execution.event (k : String) (r : Redis) (x : Execution) : TokenBucket.Event ℚ :=
  if k ∈ x.scopes.slots.map Slot.key then
    match x.command with
    | .reserve cost =>
        if (reserveScript r x.scopes.slots cost bucketTTL x.time).1.allowed = 1 then .take cost
        else .idle
    | .adjust delta => .give delta
  else .idle

theorem Execution.event_net (k : String) (r : Redis) (x : Execution) :
    (x.event k r).net = x.charge k r := by
  unfold Execution.event Execution.charge
  split
  · cases x.command with
    | reserve cost =>
        simp only
        split <;> rfl
    | adjust delta => rfl
  · rfl

theorem write_same (r : Redis) (k : String) (tokens now ttl : ℚ) :
    write r k tokens now ttl k = some ⟨tokens, now, now + ttl⟩ := Function.update_self k _ r

theorem write_of_ne {r : Redis} {k key : String} {tokens now ttl : ℚ} (h : k ≠ key) :
    write r key tokens now ttl k = r k := Function.update_of_ne h _ r

theorem refilled_eq_balance (r : Redis) (slot : Slot) (now : ℚ) :
    refilled r slot now = balance r slot.key slot.cap now := rfl

/-- A scope whose refilled balance is below the cost. -/
def runsShort (r : Redis) (cost now : ℚ) (slot : Slot) : Bool := decide (refilled r slot now < cost)

/-- What reserve.lua returns for a short scope. -/
def rejection (r : Redis) (cost now : ℚ) (slot : Slot) : Reply :=
  ⟨0, ⌈(cost - refilled r slot now) / (slot.cap / 60) * 1000⌉, slot.scope, 0⟩

/-- The first loop stops at the first short scope. -/
theorem checkSlots_of_short {r : Redis} {cost now : ℚ} {slots : List Slot} {balances : List ℚ}
    {slot : Slot} (first : slots.find? (runsShort r cost now) = some slot) :
    checkSlots r cost now slots balances = .error (rejection r cost now slot) := by
  induction slots generalizing balances with
  | nil => cases first
  | cons other slots ih =>
      by_cases low : refilled r other now < cost
      · rw [List.find?_cons_of_pos (by simpa [runsShort] using low)] at first
        cases first
        simp only [checkSlots, if_pos low]
        rfl
      · rw [List.find?_cons_of_neg (by simpa [runsShort] using low)] at first
        simp only [checkSlots, if_neg low]
        exact ih first

/-- Where no scope is short it collects every balance. -/
theorem checkSlots_of_enough {r : Redis} {cost now : ℚ} {slots : List Slot} {balances : List ℚ}
    (enough : ∀ slot ∈ slots, cost ≤ refilled r slot now) :
    checkSlots r cost now slots balances =
      .ok (balances ++ slots.map fun slot => refilled r slot now) := by
  induction slots generalizing balances with
  | nil => rw [checkSlots, List.map_nil, List.append_nil]
  | cons slot slots ih =>
      simp only [checkSlots, if_neg (not_lt.mpr (enough slot List.mem_cons_self))]
      rw [ih fun other member => enough other (List.mem_cons_of_mem _ member), List.map_cons,
        List.append_assoc, List.singleton_append]

theorem enough_of_find {r : Redis} {cost now : ℚ} {slots : List Slot} :
    slots.find? (runsShort r cost now) = none ↔ ∀ slot ∈ slots, cost ≤ refilled r slot now := by
  simp [runsShort]

theorem reserveScript_of_short {r : Redis} {slots : List Slot} {cost ttl now : ℚ} {slot : Slot}
    (first : slots.find? (runsShort r cost now) = some slot) :
    reserveScript r slots cost ttl now = (rejection r cost now slot, r) := by
  rw [reserveScript, checkSlots_of_short first]

theorem reserveScript_of_enough {r : Redis} {slots : List Slot} {cost ttl now : ℚ}
    (enough : ∀ slot ∈ slots, cost ≤ refilled r slot now) :
    reserveScript r slots cost ttl now =
      (⟨1, 0, "", ⌊(slots.map fun slot => refilled r slot now).getD 2 0 - cost⌋⟩,
        deductSlots cost now ttl (slots.map fun slot => (slot, refilled r slot now)) r) := by
  rw [reserveScript, checkSlots_of_enough enough, List.map_prod_left_eq_zip]
  rfl

theorem deductSlots_of_not_mem {k : String} {cost now ttl : ℚ} {entries : List (Slot × ℚ)}
    {r : Redis} (h : k ∉ entries.map fun entry => entry.1.key) :
    deductSlots cost now ttl entries r k = r k := by
  induction entries generalizing r with
  | nil => rfl
  | cons entry entries ih =>
      simp only [List.map_cons, List.mem_cons, not_or] at h
      rw [deductSlots, ih h.2, write_of_ne h.1]

theorem deductSlots_of_mem {cost now ttl : ℚ} {entries : List (Slot × ℚ)} {r : Redis} {slot : Slot}
    {tokens : ℚ} (distinct : (entries.map fun entry => entry.1.key).Nodup)
    (member : (slot, tokens) ∈ entries) :
    deductSlots cost now ttl entries r slot.key = some ⟨tokens - cost, now, now + ttl⟩ := by
  induction entries generalizing r with
  | nil => cases member
  | cons entry entries ih =>
      obtain ⟨fresh, rest⟩ := List.nodup_cons.mp distinct
      rcases List.mem_cons.mp member with rfl | later
      · rw [deductSlots, deductSlots_of_not_mem fresh, write_same]
      · rw [deductSlots]
        exact ih rest later

/-- reserve.lua writes every bucket or none. -/
theorem reserveScript_cases (r : Redis) (slots : List Slot) (cost ttl now : ℚ) :
    ((reserveScript r slots cost ttl now).1.allowed = 0 ∧
        (reserveScript r slots cost ttl now).2 = r) ∨
      ((reserveScript r slots cost ttl now).1.allowed = 1 ∧
        (reserveScript r slots cost ttl now).2 =
          deductSlots cost now ttl (slots.map fun slot => (slot, refilled r slot now)) r) := by
  cases first : slots.find? (runsShort r cost now) with
  | some slot =>
      rw [reserveScript_of_short first]
      exact .inl ⟨rfl, rfl⟩
  | none =>
      rw [reserveScript_of_enough (enough_of_find.mp first)]
      exact .inr ⟨rfl, rfl⟩

/-- An accepted reservation leaves every bucket at its refilled balance less the cost. -/
theorem reserveScript_stored {r : Redis} {slots : List Slot} {cost ttl now : ℚ} {slot : Slot}
    (distinct : (slots.map Slot.key).Nodup) (member : slot ∈ slots)
    (granted : (reserveScript r slots cost ttl now).1.allowed = 1) :
    storedTokens (reserveScript r slots cost ttl now).2 slot.key slot.cap =
      refilled r slot now - cost := by
  rcases reserveScript_cases r slots cost ttl now with ⟨refused, -⟩ | ⟨-, state⟩
  · rw [refused] at granted
    cases granted
  · have entries : ((slots.map fun slot => (slot, refilled r slot now)).map
        fun entry => entry.1.key).Nodup := by
      rw [List.map_map]
      exact distinct
    rw [state, storedTokens, deductSlots_of_mem entries (List.mem_map_of_mem member)]
    rfl

/-- reserve.lua accepts exactly when every refilled balance covers the cost. -/
theorem reserveScript_granted_iff (r : Redis) (slots : List Slot) (cost ttl now : ℚ) :
    (reserveScript r slots cost ttl now).1.allowed = 1 ↔
      ∀ slot ∈ slots, cost ≤ refilled r slot now := by
  rw [← enough_of_find]
  cases first : slots.find? (runsShort r cost now) with
  | some slot =>
      rw [reserveScript_of_short first]
      simp [rejection]
  | none =>
      rw [reserveScript_of_enough (enough_of_find.mp first)]
      simp

theorem adjustScript_cons (r : Redis) (slot : Slot) (slots : List Slot) (delta ttl now : ℚ) :
    adjustScript r (slot :: slots) delta ttl now =
      adjustScript (write r slot.key (min slot.cap (refilled r slot now + delta)) now ttl)
        slots delta ttl now := by
  have clamp : (if slot.cap < refilled r slot now + delta then slot.cap
      else refilled r slot now + delta) = min slot.cap (refilled r slot now + delta) := by
    by_cases above : slot.cap < refilled r slot now + delta
    · rw [if_pos above, min_eq_left (le_of_lt above)]
    · rw [if_neg above, min_eq_right (not_lt.mp above)]
  unfold adjustScript
  rw [List.foldl_cons]
  simp only [clamp]

theorem adjustScript_of_not_mem {k : String} {slots : List Slot} {r : Redis} {delta ttl now : ℚ}
    (h : k ∉ slots.map Slot.key) : adjustScript r slots delta ttl now k = r k := by
  induction slots generalizing r with
  | nil => rfl
  | cons slot slots ih =>
      simp only [List.map_cons, List.mem_cons, not_or] at h
      rw [adjustScript_cons, ih h.2, write_of_ne h.1]

theorem adjustScript_of_mem {slots : List Slot} {r : Redis} {delta ttl now : ℚ} {slot : Slot}
    (distinct : (slots.map Slot.key).Nodup) (member : slot ∈ slots) :
    adjustScript r slots delta ttl now slot.key =
      some ⟨min slot.cap (refilled r slot now + delta), now, now + ttl⟩ := by
  induction slots generalizing r with
  | nil => cases member
  | cons first slots ih =>
      obtain ⟨fresh, rest⟩ := List.nodup_cons.mp distinct
      rw [adjustScript_cons]
      rcases List.mem_cons.mp member with rfl | later
      · rw [adjustScript_of_not_mem fresh, write_same]
      · have other : slot.key ≠ first.key := by
          intro same
          exact fresh (same ▸ List.mem_map_of_mem later)
        rw [ih rest later]
        simp only [refilled, write_of_ne other]

/-- Refinement: on every bucket a script execution is the abstract event it stands for. -/
theorem Execution.run_refines {k : String} {cap : ℚ} (r : Redis) (x : Execution)
    (fixed : ∀ slot ∈ x.scopes.slots, slot.key = k → slot.cap = cap) :
    (x.run r k).map Bucket.stored =
      (x.event k r).apply cap (cap / 60) ((r k).map Bucket.stored) x.time := by
  have distinct := slots_nodup x.scopes
  by_cases touched : k ∈ x.scopes.slots.map Slot.key
  · obtain ⟨slot, member, rfl⟩ := List.mem_map.mp touched
    have same := fixed slot member rfl
    subst same
    simp only [Execution.event, if_pos touched, Execution.run]
    cases x.command with
    | adjust delta =>
        simp only
        rw [adjustScript_of_mem distinct member]
        rfl
    | reserve cost =>
        simp only
        rcases reserveScript_cases r x.scopes.slots cost bucketTTL x.time with
          ⟨refused, state⟩ | ⟨granted, state⟩
        · rw [refused, state, if_neg (by decide)]
          rfl
        · rw [granted, state, if_pos rfl]
          have entries : ((x.scopes.slots.map fun slot => (slot, refilled r slot x.time)).map
              fun entry => entry.1.key).Nodup := by
            rw [List.map_map]
            exact distinct
          rw [deductSlots_of_mem entries (List.mem_map_of_mem member)]
          rfl
  · simp only [Execution.event, if_neg touched, Execution.run, TokenBucket.Event.apply]
    cases x.command with
    | adjust delta =>
        simp only
        rw [adjustScript_of_not_mem touched]
    | reserve cost =>
        simp only
        rcases reserveScript_cases r x.scopes.slots cost bucketTTL x.time with
          ⟨-, state⟩ | ⟨-, state⟩
        · rw [state]
        · have absent : k ∉ (x.scopes.slots.map fun slot => (slot, refilled r slot x.time)).map
              fun entry => entry.1.key := by
            rw [List.map_map]
            exact touched
          rw [state, deductSlots_of_not_mem absent]

/-- The abstract events of a run on bucket `k`. -/
def events (k : String) : Redis → List Execution → List (ℚ × TokenBucket.Event ℚ)
  | _, [] => []
  | r, x :: xs => (x.time, x.event k r) :: events k (x.run r) xs

theorem events_times (k : String) (r : Redis) (xs : List Execution) :
    (events k r xs).map Prod.fst = xs.map Execution.time := by
  induction xs generalizing r with
  | nil => rfl
  | cons x xs ih =>
      rw [events, List.map_cons, List.map_cons, ih]

theorem spent_events (k : String) (r : Redis) (xs : List Execution) :
    TokenBucket.spent (events k r xs) = charged k r xs := by
  induction xs generalizing r with
  | nil => rfl
  | cons x xs ih =>
      have rest := ih (x.run r)
      unfold TokenBucket.spent at rest ⊢
      rw [events, List.map_cons, List.sum_cons, rest, Execution.event_net, charged]

theorem runAll_refines {k : String} {cap : ℚ} (r : Redis) {xs : List Execution}
    (fixed : ∀ x ∈ xs, ∀ slot ∈ x.scopes.slots, slot.key = k → slot.cap = cap) :
    (runAll r xs k).map Bucket.stored =
      TokenBucket.run cap (cap / 60) ((r k).map Bucket.stored) (events k r xs) := by
  induction xs generalizing r with
  | nil => rfl
  | cons x xs ih =>
      have here := x.run_refines r (fixed x List.mem_cons_self)
      have later := ih (x.run r) fun y member => fixed y (List.mem_cons_of_mem _ member)
      rw [events, TokenBucket.run, ← here]
      exact later

/-- Rate bound over any window of any run: what accepted reservations take out of a bucket
in the window, less what adjustments return, is at most its capacity plus the refill of the
window, less the balance it is left with. The same holds with the tokens as stored, unless
the window writes nothing to a bucket stored above its capacity. -/
theorem charged_rate_bound {k : String} {cap s e : ℚ} (positive : 0 < cap) (r : Redis)
    (before window : List Execution)
    (fixed : ∀ x ∈ window, ∀ slot ∈ x.scopes.slots, slot.key = k → slot.cap = cap)
    (order : (window.map Execution.time).Pairwise (· ≤ ·))
    (inside : ∀ x ∈ window, s ≤ x.time ∧ x.time ≤ e) (span : s ≤ e) :
    charged k (runAll r before) window ≤
        cap + cap / 60 * (e - s) - balance (runAll (runAll r before) window) k cap e ∧
      (storedTokens (runAll r before) k cap ≤ cap ∨
          (∃ ev ∈ events k (runAll r before) window, ev.2 ≠ .idle) →
        charged k (runAll r before) window ≤
          cap + cap / 60 * (e - s) - storedTokens (runAll (runAll r before) window) k cap) := by
  have rate : 0 ≤ cap / 60 := by positivity
  have sorted : (s :: (events k (runAll r before) window).map Prod.fst).Pairwise (· ≤ ·) := by
    rw [events_times, List.pairwise_cons]
    refine ⟨?_, order⟩
    intro t member
    obtain ⟨x, inWindow, rfl⟩ := List.mem_map.mp member
    exact (inside x inWindow).1
  have last : ∀ ev ∈ events k (runAll r before) window, ev.1 ≤ e := by
    intro ev member
    have time : ev.1 ∈ window.map Execution.time := by
      rw [← events_times k (runAll r before) window]
      exact List.mem_map_of_mem member
    obtain ⟨x, inWindow, same⟩ := List.mem_map.mp time
    rw [← same]
    exact (inside x inWindow).2
  obtain ⟨levels, contents⟩ := TokenBucket.spent_add_level_le rate sorted last span
    (TokenBucket.level_le_cap (b := (runAll r before k).map Bucket.stored))
  rw [spent_events, ← runAll_refines _ fixed] at levels contents
  unfold balance storedTokens
  refine ⟨by linarith, ?_⟩
  intro kept
  have := contents kept
  linarith

def acme : Scopes := ⟨"acme", "search", "k1", 600, 600, 60⟩

/-- A reservation of 40, a refused one of 50 and a refund of 30 on a fresh key bucket of
capacity 60, over ten seconds. -/
def tenSeconds : List Execution :=
  [⟨0, acme, .reserve 40⟩, ⟨5, acme, .reserve 50⟩, ⟨10, acme, .adjust 30⟩]

theorem tenSeconds_rate_bound :
    charged "bucket:key:k1" (fun _ => none) tenSeconds = 10 ∧
      (10 : ℚ) ≤ 60 + 60 / 60 * (10 - 0) -
        balance (runAll (fun _ => none) tenSeconds) "bucket:key:k1" 60 10 ∧
      (10 : ℚ) ≤ 60 + 60 / 60 * (10 - 0) -
        storedTokens (runAll (fun _ => none) tenSeconds) "bucket:key:k1" 60 := by
  have total : charged "bucket:key:k1" (fun _ => none) tenSeconds = 10 := by decide +kernel
  obtain ⟨levels, contents⟩ := charged_rate_bound (k := "bucket:key:k1") (s := 0) (e := 10)
    (show (0 : ℚ) < 60 by norm_num) (fun _ => none) [] tenSeconds (by decide +kernel)
    (by decide +kernel) (by decide +kernel) (by norm_num)
  exact ⟨total, total ▸ levels, total ▸ contents (.inl (by decide +kernel))⟩

end Gateway.RateLimit
