import InferenceGateway.Redis.Strings

/-! One database of Redis with everything the gateway keeps there: texts that may expire and
token buckets, side by side under their keys. A command that reads a key of the other kind
fails. -/
namespace Gateway.Redis
open Gateway.RateLimit (Bucket Decision Fate Limiter Reply Scopes Slot bucketKey bucketTTL checkSlots
  decision)

inductive Item where
  | text (value : String) (expiry : Option Int)
  | bucket (b : Bucket)

def Item.asText : Item → Option (String × Option Int)
  | .text value expiry => some (value, expiry)
  | .bucket _ => none

def Item.asBucket : Item → Option Bucket
  | .text _ _ => none
  | .bucket b => some b

abbrev Keys := String → Option Item

def wrongType : String := "WRONGTYPE Operation against a key holding the wrong kind of value"

/-- TIME as the scripts read it, in seconds; clocks count nanoseconds. -/
def seconds (now : Int) : ℚ := (now / 1000 : Int) / 1000000

/-- Who keeps texts: the identity cache and the exact cache, each under keys of its own. -/
inductive House where
  | identities
  | responses
  deriving DecidableEq

def House.stem : House → String
  | .identities => "vk:"
  | .responses => "cache:exact:"

def House.has (house : House) (key : String) : Bool := house.stem.toList.isPrefixOf key.toList

namespace Keys

def texts (keys : Keys) : Strings := fun key => (keys key).bind Item.asText

def buckets (keys : Keys) : RateLimit.Redis := fun key => (keys key).bind Item.asBucket

/-- The texts of one house. -/
def room (keys : Keys) (house : House) : Strings :=
  fun key => if house.has key then keys.texts key else none

def get (keys : Keys) (fate : Fate) (now : Int) (key : String) : Except String (Option String) :=
  match fate.err, keys.buckets key with
  | some err, _ => .error err
  | none, some _ => .error wrongType
  | none, none => .ok (keys.texts.live now key)

/-- SET writes over whatever was there. -/
def set (keys : Keys) (fate : Fate) (now : Int) (key value : String) (ttl : Providers.Duration) : Keys :=
  if fate.executes then Function.update keys key (some (.text value (expiryOf now ttl))) else keys

def del (keys : Keys) (fate : Fate) (key : String) : Keys :=
  if fate.executes then Function.update keys key none else keys

/-- What SCAN may yield has not expired. -/
def there (keys : Keys) (now : Int) (key : String) : Bool :=
  match keys key with
  | some (.text _ expiry) => expiry.all (now ≤ ·)
  | some (.bucket b) => decide (seconds now ≤ b.expireAt)
  | none => false

/-- Keys that expire or are evicted. -/
def lose (keys : Keys) (lost : String → Bool) : Keys :=
  fun key => if lost key then none else keys key

/-- The buckets as a script left them, among the texts. -/
def withBuckets (keys : Keys) (buckets : RateLimit.Redis) : Keys := fun key =>
  ((buckets key).map .bucket).or ((keys.texts key).map fun entry => .text entry.1 entry.2)

/-- The slots a script gets through before an HMGET of it meets a text. -/
def readable (keys : Keys) (slots : List Slot) : List Slot :=
  slots.takeWhile fun slot => (keys.texts slot.key).isNone

/-- reserve.lua reads all buckets before it writes one; an error of a call ends it. -/
def reserveScript (keys : Keys) (slots : List Slot) (cost ttl now : ℚ) : Except String Reply × Keys :=
  if keys.readable slots = slots then
    let ran := RateLimit.reserveScript keys.buckets slots cost ttl now
    (.ok ran.1, keys.withBuckets ran.2)
  else
    match checkSlots keys.buckets cost now (keys.readable slots) [] with
    | .error reply => (.ok reply, keys)
    | .ok _ => (.error wrongType, keys)

/-- adjust.lua writes each bucket before it reads the next. -/
def adjustScript (keys : Keys) (slots : List Slot) (delta ttl now : ℚ) : Option String × Keys :=
  (if keys.readable slots = slots then none else some wrongType,
    keys.withBuckets (RateLimit.adjustScript keys.buckets (keys.readable slots) delta ttl now))

def reserve (l : Limiter) (keys : Keys) (fate : Fate) (s : Scopes) (cost : Int64) (now : ℚ) :
    Except String Decision × Keys :=
  let script := keys.reserveScript s.slots cost.toInt bucketTTL now
  (decision l.failOpen (fate.err.elim script.1 .error), if fate.executes then script.2 else keys)

def adjust (keys : Keys) (fate : Fate) (s : Scopes) (delta : Int64) (now : ℚ) : Option String × Keys :=
  if delta = 0 then (none, keys)
  else
    let script := keys.adjustScript s.slots delta.toInt bucketTTL now
    ((fate.err.or script.1).map ("ratelimit: adjust: " ++ ·),
      if fate.executes then script.2 else keys)

/-- The stems keep the two houses and the buckets apart. -/
structure Sorted (keys : Keys) : Prop where
  texts : ∀ scope id, keys.texts (bucketKey scope id) = none
  buckets : ∀ house key, House.has house key = true → keys.buckets key = none

end Keys

theorem House.has_iff {house : House} {key : String} :
    house.has key = true ↔ house.stem.toList <+: key.toList := List.isPrefixOf_iff_prefix

theorem House.has_append (house : House) (rest : String) : house.has (house.stem ++ rest) = true := by
  rw [House.has_iff, String.toList_append]
  exact List.prefix_append _ _

theorem House.has_bucketKey (house : House) (scope id : String) :
    house.has (bucketKey scope id) = false := by
  cases house <;> simp [House.has, House.stem, bucketKey, List.isPrefixOf]

/-- A key is of one house at most. -/
theorem House.eq_of_has {house other : House} {key : String} (own : house.has key = true)
    (also : other.has key = true) : house = other := by
  obtain ⟨rest, same⟩ := House.has_iff.mp own
  rw [House.has_iff, ← same] at also
  cases house <;> cases other <;> simp [House.stem] at also ⊢

namespace Keys
variable {keys : Keys} {fate : Fate} {now : Int} {key value : String} {ttl : Providers.Duration}
  {house : House} {buckets : RateLimit.Redis}

theorem room_of_has (own : house.has key = true) : keys.room house key = keys.texts key := by
  rw [room, if_pos own]

theorem live_room (own : house.has key = true) :
    (keys.room house).live now key = keys.texts.live now key := by
  rw [Strings.live, Strings.live, room_of_has own]

/-- In its house a key holds a text or nothing. -/
theorem Sorted.get (sorted : keys.Sorted) (own : house.has key = true) :
    keys.get fate now key = fate.err.elim (.ok ((keys.room house).live now key)) .error := by
  rw [Keys.get, sorted.buckets house key own, live_room own]
  cases fate.err <;> rfl

theorem Sorted.there (sorted : keys.Sorted) (own : house.has key = true) :
    keys.there now key = ((keys.room house).live now key).isSome := by
  have vacant := sorted.buckets house key own
  rw [live_room own]
  simp only [Keys.there, Strings.live, Keys.texts, Keys.buckets] at vacant ⊢
  cases held : keys key with
  | none => rfl
  | some item =>
      cases item with
      | text value expiry => by_cases alive : expiry.all (now ≤ ·) = true <;> simp [Item.asText, alive]
      | bucket b => simp [held, Item.asBucket] at vacant

/-- What a command on a key of one house leaves of the views. -/
theorem texts_update (item : Option Item) (other : String) :
    Keys.texts (Function.update keys key item) other =
      if other = key then item.bind Item.asText else keys.texts other := by
  by_cases same : other = key
  · subst same
    simp [texts]
  · simp [texts, same]

theorem buckets_update (item : Option Item) (other : String) :
    Keys.buckets (Function.update keys key item) other =
      if other = key then item.bind Item.asBucket else keys.buckets other := by
  by_cases same : other = key
  · subst same
    simp [Keys.buckets]
  · simp [Keys.buckets, same]

theorem room_update (own : house.has key = true) (item : Option Item) :
    Keys.room (Function.update keys key item) house =
      Function.update (keys.room house) key (item.bind Item.asText) := by
  funext other
  rw [room, texts_update, Function.update_apply, room]
  by_cases same : other = key
  · subst same
    simp [own]
  · simp [same]

theorem room_update_other {away : House} (own : house.has key = true) (differ : away ≠ house)
    (item : Option Item) : Keys.room (Function.update keys key item) away = keys.room away := by
  funext other
  rw [room, texts_update, room]
  by_cases same : other = key
  · subst same
    have foreign : away.has other = false := by
      by_contra held
      exact differ (House.eq_of_has (eq_true_of_ne_false held) own)
    simp [foreign]
  · simp [same]

/-- A command changed the texts of one house and nothing else. -/
structure Altered (keys after : Keys) (house : House) (texts : Strings) : Prop where
  own : after.room house = texts
  others : ∀ away, away ≠ house → after.room away = keys.room away
  buckets : after.buckets = keys.buckets
  sorted : after.Sorted
  elsewhere : ∀ key, house.has key = false → after key = keys key

theorem Sorted.unaltered (sorted : keys.Sorted) (house : House) :
    Altered keys keys house (keys.room house) := ⟨rfl, fun _ _ => rfl, rfl, sorted, fun _ _ => rfl⟩

theorem Sorted.update (sorted : keys.Sorted) (own : house.has key = true)
    {item : Option Item} (text : item.bind Item.asBucket = none) :
    Altered keys (Function.update keys key item) house
      (Function.update (keys.room house) key (item.bind Item.asText)) := by
  have same : Keys.buckets (Function.update keys key item) = keys.buckets := by
    funext other
    rw [Keys.buckets_update]
    split
    · rename_i here
      rw [here, text, sorted.buckets house key own]
    · rfl
  refine ⟨room_update own item, fun away differ => room_update_other own differ item, same,
    ⟨?_, ?_⟩, ?_⟩
  · intro scope id
    have differ : bucketKey scope id ≠ key := by
      rintro rfl
      rw [House.has_bucketKey] at own
      cases own
    rw [texts_update, if_neg differ, sorted.texts]
  · intro any other held
    rw [same, sorted.buckets any other held]
  · intro other foreign
    have differ : other ≠ key := by
      rintro rfl
      rw [own] at foreign
      cases foreign
    exact Function.update_of_ne differ item keys

theorem Sorted.set (sorted : keys.Sorted) (own : house.has key = true) :
    Altered keys (keys.set fate now key value ttl) house
      ((keys.room house).set fate now key value ttl) := by
  unfold Keys.set Strings.set
  split
  · exact sorted.update own rfl
  · exact sorted.unaltered house

theorem Sorted.del (sorted : keys.Sorted) (own : house.has key = true) :
    Altered keys (keys.del fate key) house ((keys.room house).del fate key) := by
  unfold Keys.del Strings.del
  split
  · exact sorted.update own rfl
  · exact sorted.unaltered house

@[simp] theorem buckets_withBuckets : (keys.withBuckets buckets).buckets = buckets := by
  funext key
  cases found : buckets key with
  | some b => simp [Keys.buckets, withBuckets, found, Item.asBucket]
  | none => cases held : keys.texts key <;> simp [Keys.buckets, withBuckets, found, held, Item.asBucket]

/-- A script leaves the texts alone, if it writes no key that holds one. -/
theorem texts_withBuckets (apart : ∀ key, keys.texts key ≠ none → buckets key = none) :
    (keys.withBuckets buckets).texts = keys.texts := by
  funext key
  change ((((buckets key).map Item.bucket).or _).bind Item.asText) = _
  cases held : keys.texts key with
  | none => cases buckets key <;> simp [Item.asText]
  | some entry => simp [apart key (by simp [held]), Item.asText]

theorem withBuckets_of_eq (same : buckets key = keys.buckets key) :
    keys.withBuckets buckets key = keys key := by
  simp only [withBuckets, same, texts, Keys.buckets]
  rcases keys key with - | ⟨value, expiry⟩ | b <;> rfl

theorem buckets_of_texts (h : keys.texts key ≠ none) : keys.buckets key = none := by
  simp only [texts, Keys.buckets] at h ⊢
  rcases held : keys key with - | ⟨value, expiry⟩ | b
  · rfl
  · rfl
  · simp [held, Item.asText] at h

theorem Sorted.readable (sorted : keys.Sorted) (s : Scopes) : keys.readable s.slots = s.slots := by
  simp [Keys.readable, Scopes.slots, sorted.texts]

theorem Sorted.slots (sorted : keys.Sorted) {s : Scopes} (h : keys.texts key ≠ none) :
    key ∉ s.slots.map Slot.key := by
  intro member
  simp only [Scopes.slots, List.map_cons, List.map_nil, List.mem_cons, List.not_mem_nil, or_false]
    at member
  rcases member with rfl | rfl | rfl <;> exact h (sorted.texts _ _)

/-- The buckets after a script of the limiter, whose keys hold no texts. -/
def Ran (s : Scopes) (before after : RateLimit.Redis) : Prop :=
  ∀ key, key ∉ s.slots.map Slot.key → after key = before key

theorem ran_reserveScript (r : RateLimit.Redis) (s : Scopes) (cost ttl now : ℚ) :
    Ran s r (RateLimit.reserveScript r s.slots cost ttl now).2 := by
  intro key outside
  rcases RateLimit.reserveScript_cases r s.slots cost ttl now with ⟨-, same⟩ | ⟨-, deducted⟩
  · rw [same]
  · rw [deducted]
    apply RateLimit.deductSlots_of_not_mem
    simpa [List.map_map, Function.comp_def] using outside

theorem ran_adjustScript (r : RateLimit.Redis) (s : Scopes) (delta ttl now : ℚ) :
    Ran s r (RateLimit.adjustScript r s.slots delta ttl now) :=
  fun _ outside => RateLimit.adjustScript_of_not_mem outside

/-- A script changed the buckets and nothing else. -/
structure Metered (keys after : Keys) (buckets : RateLimit.Redis) : Prop where
  own : after.buckets = buckets
  others : ∀ house, after.room house = keys.room house
  sorted : after.Sorted
  elsewhere : ∀ key, (∀ scope id, key ≠ bucketKey scope id) → after key = keys key

theorem Sorted.ran (sorted : keys.Sorted) {s : Scopes} (ran : Ran s keys.buckets buckets) :
    Metered keys (keys.withBuckets buckets) buckets := by
  have same : (keys.withBuckets buckets).texts = keys.texts := by
    apply texts_withBuckets
    intro key held
    rw [ran key (sorted.slots held), buckets_of_texts held]
  refine ⟨buckets_withBuckets, fun house => ?_, ⟨?_, ?_⟩, ?_⟩
  · funext key
    rw [room, room, same]
  · intro scope id
    rw [same, sorted.texts]
  · intro house key own
    rw [buckets_withBuckets, ran key, sorted.buckets house key own]
    intro member
    obtain ⟨slot, listed, rfl⟩ := List.mem_map.mp member
    simp only [Scopes.slots, List.mem_cons, List.not_mem_nil, or_false] at listed
    rcases listed with rfl | rfl | rfl <;> simp [House.has_bucketKey] at own
  · intro key foreign
    apply withBuckets_of_eq
    apply ran key
    simp [Scopes.slots, foreign]

theorem Sorted.unmetered (sorted : keys.Sorted) : Metered keys keys keys.buckets :=
  ⟨rfl, fun _ => rfl, sorted, fun _ _ => rfl⟩

theorem Sorted.reserve (sorted : keys.Sorted) (l : Limiter) (fate : Fate) (s : Scopes)
    (cost : Int64) (time : ℚ) :
    (keys.reserve l fate s cost time).1 = (l.reserve fate keys.buckets s cost time).1 ∧
      Metered keys (keys.reserve l fate s cost time).2
        (l.reserve fate keys.buckets s cost time).2 := by
  have script : keys.reserveScript s.slots cost.toInt bucketTTL time =
      (.ok (RateLimit.reserveScript keys.buckets s.slots cost.toInt bucketTTL time).1,
        keys.withBuckets
          (RateLimit.reserveScript keys.buckets s.slots cost.toInt bucketTTL time).2) := by
    rw [Keys.reserveScript, if_pos (sorted.readable s)]
  have ran := sorted.ran (ran_reserveScript keys.buckets s cost.toInt bucketTTL time)
  simp only [Keys.reserve, script]
  cases fate with
  | answered => exact ⟨rfl, ran⟩
  | unanswered err => exact ⟨rfl, ran⟩
  | unexecuted err => exact ⟨rfl, sorted.unmetered⟩

theorem Sorted.adjust (sorted : keys.Sorted) (l : Limiter) (fate : Fate) (s : Scopes)
    (delta : Int64) (time : ℚ) :
    (keys.adjust fate s delta time).1 = (l.adjust fate keys.buckets s delta time).1 ∧
      Metered keys (keys.adjust fate s delta time).2
        (l.adjust fate keys.buckets s delta time).2 := by
  have script : keys.adjustScript s.slots delta.toInt bucketTTL time =
      (none, keys.withBuckets
        (RateLimit.adjustScript keys.buckets s.slots delta.toInt bucketTTL time)) := by
    rw [Keys.adjustScript, if_pos (sorted.readable s), sorted.readable s]
  have ran := sorted.ran (ran_adjustScript keys.buckets s delta.toInt bucketTTL time)
  simp only [Keys.adjust, Limiter.adjust, script]
  split
  · exact ⟨rfl, sorted.unmetered⟩
  · cases fate with
    | answered => exact ⟨rfl, ran⟩
    | unanswered err => exact ⟨rfl, ran⟩
    | unexecuted err => exact ⟨rfl, sorted.unmetered⟩

theorem lose_room (lost : String → Bool) (house : House) :
    (keys.lose lost).room house = fun key => if lost key then none else keys.room house key := by
  funext key
  simp only [room, texts, Keys.lose]
  by_cases gone : lost key = true <;> simp [gone]

theorem lose_buckets (lost : String → Bool) :
    (keys.lose lost).buckets = fun key => if lost key then none else keys.buckets key := by
  funext key
  simp only [Keys.buckets, Keys.lose]
  by_cases gone : lost key = true <;> simp [gone]

theorem Sorted.lose (sorted : keys.Sorted) (lost : String → Bool) : (keys.lose lost).Sorted := by
  constructor
  · intro scope id
    have vacant := sorted.texts scope id
    simp only [Keys.lose, Keys.texts] at vacant ⊢
    split
    · rfl
    · exact vacant
  · intro house key own
    have vacant := sorted.buckets house key own
    simp only [Keys.lose, Keys.buckets] at vacant ⊢
    split
    · rfl
    · exact vacant

end Keys
end Gateway.Redis
