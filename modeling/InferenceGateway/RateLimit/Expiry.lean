import InferenceGateway.RateLimit.Bound

/-! What the expiry of a key changes. A missing key counts as a full bucket, so expiry goes
unnoticed exactly where two minutes of refill fill the bucket from what was stored. -/
namespace Gateway.RateLimit

/-- Redis drops a key whose time to live is over. -/
def expire (r : Redis) (k : String) (now : ℚ) : Redis :=
  match r k with
  | none => r
  | some b => if b.expireAt ≤ now then Function.update r k none else r

inductive Activity where
  | script (x : Execution)
  | expiry (k : String) (now : ℚ)

def Activity.apply (r : Redis) : Activity → Redis
  | .script x => x.run r
  | .expiry k now => expire r k now

/-- The buckets after scripts and expiries, on a Redis that started empty. -/
def history (activities : List Activity) : Redis := activities.foldl Activity.apply fun _ => none

/-- Every bucket is as a script writes it: its key lives for the TTL from its last refill. -/
def Stamped (r : Redis) : Prop := ∀ k b, r k = some b → b.expireAt = b.lastRefill + bucketTTL

theorem write_stamped {r : Redis} {key : String} {tokens now : ℚ} (stamped : Stamped r) :
    Stamped (write r key tokens now bucketTTL) := by
  intro k b
  by_cases same : k = key
  · subst same
    rw [write_same]
    rintro ⟨⟩
    rfl
  · rw [write_of_ne same]
    exact stamped k b

theorem deductSlots_stamped {cost now : ℚ} {entries : List (Slot × ℚ)} {r : Redis}
    (stamped : Stamped r) : Stamped (deductSlots cost now bucketTTL entries r) := by
  induction entries generalizing r with
  | nil => exact stamped
  | cons entry entries ih => exact ih (write_stamped stamped)

theorem adjustScript_stamped {delta now : ℚ} {slots : List Slot} {r : Redis}
    (stamped : Stamped r) : Stamped (adjustScript r slots delta bucketTTL now) := by
  induction slots generalizing r with
  | nil => exact stamped
  | cons slot slots ih =>
      rw [adjustScript_cons]
      exact ih (write_stamped stamped)

theorem expire_stamped {r : Redis} {key : String} {now : ℚ} (stamped : Stamped r) :
    Stamped (expire r key now) := by
  unfold expire
  split
  · exact stamped
  · split
    · intro k b stored
      by_cases same : k = key
      · subst same
        rw [Function.update_self] at stored
        cases stored
      · rw [Function.update_of_ne same] at stored
        exact stamped k b stored
    · exact stamped

theorem Activity.apply_stamped {r : Redis} (a : Activity) (stamped : Stamped r) :
    Stamped (a.apply r) := by
  cases a with
  | expiry k now => exact expire_stamped stamped
  | script x =>
      simp only [Activity.apply, Execution.run]
      cases x.command with
      | adjust delta => exact adjustScript_stamped stamped
      | reserve cost =>
          simp only
          rcases reserveScript_cases r x.scopes.slots cost bucketTTL x.time with
            ⟨-, state⟩ | ⟨-, state⟩
          · rw [state]
            exact stamped
          · rw [state]
            exact deductSlots_stamped stamped

theorem history_stamped (activities : List Activity) : Stamped (history activities) :=
  List.foldlRecOn activities Activity.apply (fun k b stored => by cases stored)
    fun _ stamped a _ => a.apply_stamped stamped

/-- A key bucket of capacity 60 whose request of estimated cost 10 turns out to cost `used`. -/
def corrected (used : ℚ) : List Activity :=
  [.script ⟨0, acme, .reserve 10⟩, .script ⟨5, acme, .adjust (10 - used)⟩]

end Gateway.RateLimit
