import InferenceGateway.Interaction.Serving
import InferenceGateway.Providers.Types

/-! The Tier-1 store of package exact over Redis. Redis is a map whose keys may vanish at any
time; the iterator behind a purge is what it yields before it ends. -/
namespace Gateway.Exact
open Gateway.Providers Interaction
open Interaction.Program (Runs runs_pure runs_perform_bind)

/-- The text under a key, as Get decodes it. -/
abbrev Keyspace := String → Option (Except String CanonicalResponse)

namespace Keyspace

/-- Store.Get on a Redis that answers. -/
def get (ks : Keyspace) (key : String) : Except String (Option CanonicalResponse) :=
  match ks key with
  | none => .ok none
  | some (.error err) => .error ("exact: decode cached response: " ++ err)
  | some (.ok resp) => .ok (some resp)

def set (ks : Keyspace) (key : String) (resp : CanonicalResponse) : Keyspace :=
  Function.update ks key (some (.ok resp))

theorem get_hit {ks : Keyspace} {key : String} {resp : CanonicalResponse}
    (h : ks.get key = .ok (some resp)) : ks key = some (.ok resp) := by
  unfold get at h
  split at h
  · cases h
  · cases h
  · cases h
    assumption

/-- Keys expire, or are evicted. -/
def Fades (ks ks' : Keyspace) : Prop := ∀ key, ks' key = ks key ∨ ks' key = none

end Keyspace

inductive RedisOp where
  | scan (pattern : String)
  | del (key : String)

/-- The keys the iterator yields, with the error it ends in, and the error of a deletion. -/
@[reducible] def RedisOp.Reply : RedisOp → Type
  | .scan _ => List String × Option String
  | .del _ => Option String

abbrev RedisM := Program RedisOp RedisOp.Reply

abbrev ask (o : RedisOp) : RedisM o.Reply := Program.perform o

/-- The loop of PurgeTenant over what the iterator yields. -/
def purgeKeys (ended : Option String) : List String → Nat → RedisM (Nat × Option String)
  | [], deleted => pure (deleted, ended.map ("exact: purge scan: " ++ ·))
  | key :: rest, deleted => do
      let failed : Option String ← ask (.del key)
      match failed with
      | some err => pure (deleted, some ("exact: purge: " ++ err))
      | none => purgeKeys ended rest (deleted + 1)

/-- The part of Key before the digest. -/
def tenantStem (tenantID : String) : String := "cache:exact:" ++ tenantID ++ ":"

def purgeTenant (tenantID : String) : RedisM (Nat × Option String) := do
  let scanned : List String × Option String ← ask (.scan (tenantStem tenantID ++ "*"))
  purgeKeys scanned.2 scanned.1 0

/-- A text that stands for itself in a pattern. -/
def Verbatim (text : String) : Prop :=
  (text.toList.any fun c => ['*', '?', '[', '\\'].contains c) = false

theorem Verbatim.append {text more : String} (first : Verbatim text) (second : Verbatim more) :
    Verbatim (text ++ more) := by
  rw [Verbatim, String.toList_append, List.any_append, Bool.or_eq_false_iff]
  exact ⟨first, second⟩

theorem Verbatim.tenantStem {tenantID : String} (h : Verbatim tenantID) :
    Verbatim (tenantStem tenantID) := by
  have lead : Verbatim "cache:exact:" := rfl
  have colon : Verbatim ":" := rfl
  exact (lead.append h).append colon

/-- A full iteration yields every key that matches and is still there at its end. -/
def Covers (ks : Keyspace) (pattern : String) (keys : List String) : Prop :=
  ∀ stem, Verbatim stem → pattern = stem ++ "*" → ∀ key, stem.toList <+: key.toList →
    ks key ≠ none → key ∈ keys

/-- How Redis answers, with nobody else writing. -/
inductive Answers : Keyspace → Event RedisOp RedisOp.Reply → Keyspace → Prop
  | scan {ks ks' : Keyspace} {pattern : String} {keys : List String} {err : Option String} :
      ks.Fades ks' → (err = none → Covers ks' pattern keys) →
      Answers ks ⟨.scan pattern, (keys, err)⟩ ks'
  | del {ks ks' : Keyspace} {key : String} {err : Option String} :
      ks.Fades ks' → (err = none → ks' key = none) → Answers ks ⟨.del key, err⟩ ks'

theorem Keyspace.Fades.none {ks ks' : Keyspace} (h : ks.Fades ks') {key : String}
    (gone : ks key = none) : ks' key = none :=
  (h key).elim (·.trans gone) id

theorem Answers.fades {ks ks' : Keyspace} {ev : Event RedisOp RedisOp.Reply}
    (h : Answers ks ev ks') : ks.Fades ks' := by
  cases h with
  | scan fades _ => exact fades
  | del fades _ => exact fades

theorem purgeKeys_clears {ended : Option String} {keys : List String} {deleted count : Nat}
    {tr : List (Event RedisOp RedisOp.Reply)} {ks ks' : Keyspace}
    (run : Runs (purgeKeys ended keys deleted) tr (count, none)) (served : Serves Answers ks tr ks') :
    ended = none ∧ (∀ key, ks key = none → ks' key = none) ∧ ∀ key ∈ keys, ks' key = none := by
  induction keys generalizing deleted tr ks with
  | nil =>
      obtain ⟨rfl, same⟩ := runs_pure.mp run
      cases served
      refine ⟨?_, fun key gone => gone, nofun⟩
      simpa using (Prod.mk.inj same).2.symm
  | cons key rest ih =>
      obtain ⟨failed, tr', rfl, later⟩ := runs_perform_bind.mp run
      cases failed with
      | some err =>
          obtain ⟨rfl, same⟩ := runs_pure.mp later
          cases same
      | none =>
          cases served with
          | cons answered last =>
              obtain ⟨complete, kept, cleared⟩ := ih later last
              cases answered with
              | del fades deletes =>
                  refine ⟨complete, fun other gone => kept other (fades.none gone), ?_⟩
                  exact List.forall_mem_cons.mpr ⟨kept key (deletes rfl), cleared⟩

/-- A purge without an error leaves no key of the tenant. -/
theorem purgeTenant_clears {tenantID : String} (verbatim : Verbatim tenantID) {count : Nat}
    {tr : List (Event RedisOp RedisOp.Reply)} {ks ks' : Keyspace}
    (run : Runs (purgeTenant tenantID) tr (count, none)) (served : Serves Answers ks tr ks')
    {key : String} (own : (tenantStem tenantID).toList <+: key.toList) : ks' key = none := by
  obtain ⟨⟨keys, ended⟩, tr', rfl, later⟩ := runs_perform_bind.mp run
  cases served with
  | @cons _ middle _ _ _ answered last =>
      obtain ⟨complete, kept, cleared⟩ := purgeKeys_clears later last
      cases answered with
      | scan _ covers =>
          by_cases there : middle key = none
          · exact kept key there
          · exact cleared key (covers complete _ verbatim.tenantStem rfl key own there)

end Gateway.Exact
