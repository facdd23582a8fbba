import InferenceGateway.RateLimit.Bound
import InferenceGateway.Server.Runs

/-! When a reservation mints tokens. The limiter's script subtracts whatever cost it is
given, and the handler computes that cost from a client's max_tokens without a sign check. -/
namespace Gateway.RateLimit

/-- No bucket ends above its refilled balance: it is untouched, or holds at most that. -/
def MintsNothing (r : Redis) (slots : List Slot) (cost now : ℚ) : Prop :=
  ∀ slot ∈ slots, (reserveScript r slots cost bucketTTL now).2 slot.key = r slot.key ∨
    storedTokens (reserveScript r slots cost bucketTTL now).2 slot.key slot.cap ≤ refilled r slot now

theorem mintsNothing_of_nonneg {r : Redis} {slots : List Slot} {cost now : ℚ}
    (distinct : (slots.map Slot.key).Nodup) (nonneg : 0 ≤ cost) : MintsNothing r slots cost now := by
  intro slot member
  rcases reserveScript_cases r slots cost bucketTTL now with ⟨-, same⟩ | ⟨granted, -⟩
  · exact .inl (by rw [same])
  · right
    rw [reserveScript_stored distinct member granted]
    linarith

theorem mintsNothing_of_low {r : Redis} {slots : List Slot} {cost now : ℚ} {slot : Slot}
    (member : slot ∈ slots) (low : slot.cap < cost) : MintsNothing r slots cost now := by
  have refused : (reserveScript r slots cost bucketTTL now).1.allowed ≠ 1 := by
    intro granted
    have enough := (reserveScript_granted_iff r slots cost bucketTTL now).mp granted slot member
    have full : refilled r slot now ≤ slot.cap := TokenBucket.level_le_cap
    linarith
  rcases reserveScript_cases r slots cost bucketTTL now with ⟨-, same⟩ | ⟨granted, -⟩
  · exact fun other _ => .inl (by rw [same])
  · exact absurd granted refused

/-- Over all bucket states, a reservation mints nothing exactly when its cost is not
negative or some scope is too small for it in any state. -/
theorem mintsNothing_iff {slots : List Slot} {cost : ℚ} (distinct : (slots.map Slot.key).Nodup)
    (nonempty : slots ≠ []) : (∀ r now, MintsNothing r slots cost now) ↔
      0 ≤ cost ∨ ∃ slot ∈ slots, slot.cap < cost := by
  constructor
  · intro never
    by_contra other
    simp only [not_or, not_exists, not_and, not_le, not_lt] at other
    obtain ⟨negative, large⟩ := other
    -- Missing buckets are full, so every scope accepts and is left above its capacity.
    have granted : (reserveScript (fun _ => none) slots cost bucketTTL 0).1.allowed = 1 :=
      (reserveScript_granted_iff _ _ _ _ _).mpr large
    obtain ⟨slot, member⟩ := List.exists_mem_of_ne_nil slots nonempty
    have stored := reserveScript_stored distinct member granted
    rcases never (fun _ => none) 0 slot member with untouched | bounded
    · rw [storedTokens, untouched] at stored
      simp only [Option.map_none, TokenBucket.held, refilled, TokenBucket.level] at stored
      linarith
    · linarith
  · rintro (nonneg | ⟨slot, member, low⟩) r now
    · exact mintsNothing_of_nonneg distinct nonneg
    · exact mintsNothing_of_low member low

end Gateway.RateLimit

namespace Gateway.Server
open Gateway.Providers Gateway.RateLimit
open Interaction hiding Program.perform
open Interaction.Program hiding pure perform

def reservation : Event Op Op.Reply → Option (Scopes × Int64)
  | ⟨.reserve scopes cost, _⟩ => some (scopes, cost)
  | _ => none

/-- The Reserve calls of a run. -/
def reservations (tr : Trace) : List (Scopes × Int64) := tr.filterMap reservation

theorem reservations_of_unreserved {tr : Trace} (h : ∀ ev ∈ tr, ¬ ev.1.isReserve) :
    reservations tr = [] := by
  apply List.filterMap_eq_nil_iff.mpr
  rintro ⟨op, reply⟩ member
  cases op with
  | reserve scopes cost => exact absurd trivial (h _ member)
  | _ => rfl

/-- A request that passes the checks is reserved for once, at the cost of its tokens. -/
theorem chat_reserves {deps : ChatDeps} {r : Request} {p : Prepared} {tr : Trace} {out : Ended}
    (ready : prepare deps r = .ok p) (h : Runs (handleChatCompletions deps r) tr out) :
    reservations tr = [(requestScopes deps p.identity, reservationCost deps p.req)] := by
  have single : ∀ {p' : Prepared} {start : Int64} {decided : Except String Decision} {rest : Trace},
      prepare deps r = .ok p' → (∀ ev ∈ rest, ¬ ev.1.isReserve) →
      reservations (⟨.now, start⟩ :: ⟨.reserve (requestScopes deps p'.identity)
          (reservationCost deps p'.req), decided⟩ :: rest) =
        [(requestScopes deps p.identity, reservationCost deps p.req)] := by
    intro p' start decided rest same unreserved
    rw [ready] at same
    cases same
    show (requestScopes deps p.identity, reservationCost deps p.req) :: reservations rest = _
    rw [reservations_of_unreserved unreserved]
  cases handleChatCompletions_cases h with
  | refused refusal _ =>
      rw [ready] at refusal
      cases refusal
  | unlimited same http => exact single same fun ev member => (http ev member).quiet.unreserved
  | rejected same _ http => exact single same fun ev member => (http ev member).quiet.unreserved
  | admitted same _ branch =>
      apply single same
      rcases branch with ⟨-, run⟩ | ⟨-, run⟩
      · exact (handleStreamingChatCompletion_unreserved _ _ _).runs run
      · exact (completeChat_unreserved _ _ _).runs run

end Gateway.Server
