import InferenceGateway.Providers.Types
import InferenceGateway.RateLimit.Limiter

/-! The string keys of Redis with their expiry times, and calls that may fail before or after
they took effect. -/
namespace Gateway.Redis
open Gateway.RateLimit (Fate)

abbrev Strings := String → Option (String × Option Int)

/-- A TTL that is not positive is none. -/
def expiryOf (now : Int) (ttl : Providers.Duration) : Option Int :=
  if 0 < ttl then some (now + ttl.toInt) else none

namespace Strings

/-- The value of a key that has not expired. -/
def live (strings : Strings) (now : Int) (key : String) : Option String :=
  (strings key).bind fun entry => if entry.2.all (now ≤ ·) then some entry.1 else none

def set (strings : Strings) (fate : Fate) (now : Int) (key value : String)
    (ttl : Providers.Duration) : Strings :=
  if fate.executes then Function.update strings key (some (value, expiryOf now ttl)) else strings

def del (strings : Strings) (fate : Fate) (key : String) : Strings :=
  if fate.executes then Function.update strings key none else strings

variable {strings : Strings} {fate : Fate} {now : Int} {key other value : String}
  {ttl : Providers.Duration}

theorem live_some {raw : String} (h : strings.live now key = some raw) :
    ∃ expiry, strings key = some (raw, expiry) ∧ ∀ time, expiry = some time → now ≤ time := by
  obtain ⟨⟨stored, expiry⟩, found, alive⟩ := Option.bind_eq_some_iff.mp h
  split at alive
  · rename_i unexpired
    cases alive
    refine ⟨expiry, found, ?_⟩
    rintro time rfl
    simpa using unexpired
  · cases alive

/-- An entry after a Set is the new one or an old one. -/
theorem set_some {entry : String × Option Int}
    (h : strings.set fate now key value ttl other = some entry) :
    strings other = some entry ∨ (other = key ∧ entry = (value, expiryOf now ttl)) := by
  unfold set at h
  split at h
  · by_cases same : other = key
    · subst same
      rw [Function.update_self] at h
      exact .inr ⟨rfl, (Option.some.inj h).symm⟩
    · rw [Function.update_of_ne same] at h
      exact .inl h
  · exact .inl h

theorem del_some {entry : String × Option Int} (h : strings.del fate key other = some entry) :
    strings other = some entry := by
  unfold del at h
  split at h
  · by_cases same : other = key
    · subst same
      rw [Function.update_self] at h
      cases h
    · rwa [Function.update_of_ne same] at h
  · exact h

end Strings
end Gateway.Redis
