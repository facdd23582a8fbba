import InferenceGateway.Retry.Selection
import InferenceGateway.WeightedChoice.Basic

/-! Weighted selection in numbers: as long as the weights of the eligible candidates and
their sum fit 64 bits, the running subtraction of pickFromTier is the walk down cumulative
weights, and every candidate gets its share. -/
namespace Gateway.Retry
open Gateway.Providers Interaction Interaction.Program
open WeightedChoice (position)

def Candidate.share (c : Candidate) : ℕ := c.weight.toInt.toNat

theorem Candidate.ofNat_share {c : Candidate} (nonneg : 0 ≤ c.weight) :
    Int64.ofNat c.share = c.weight := Int64.ofNat_toNatClampNeg c.weight nonneg

theorem Candidate.share_lt (c : Candidate) : c.share < 2 ^ 63 := by
  have := c.weight.toInt_lt
  unfold Candidate.share
  omega

namespace Engine

/-- The iteration in which the second loop of pickFromTier returns, if it does. -/
def returnedAt : List Candidate → Int64 → Option ℕ
  | [], _ => none
  | c :: rest, pick => if pick < c.weight then some 0 else (returnedAt rest (pick - c.weight)).map (· + 1)

/-- The loop returns the candidate of that iteration, or else falls through. -/
theorem scanWeights_eq (last : Candidate) (cs : List Candidate) (pick : Int64) :
    scanWeights last cs pick = ((returnedAt cs pick).bind fun i => cs[i]?).getD last := by
  induction cs generalizing pick with
  | nil => rfl
  | cons c cs ih =>
      rw [scanWeights, returnedAt]
      split
      · rfl
      · rw [ih]
        cases returnedAt cs (pick - c.weight) <;> rfl

theorem returnedAt_eq_position {cs : List Candidate} {pick : ℕ} (nonneg : ∀ c ∈ cs, 0 ≤ c.weight)
    (fits : pick < 2 ^ 63) :
    returnedAt cs (Int64.ofNat pick) = position (cs.map Candidate.share) pick := by
  induction cs generalizing pick with
  | nil => rfl
  | cons c cs ih =>
      obtain ⟨here, rest⟩ := List.forall_mem_cons.mp nonneg
      rw [returnedAt, List.map_cons, position, ← Candidate.ofNat_share here]
      simp only [Int64.ofNat_lt_iff_lt fits c.share_lt]
      split
      · rfl
      · rename_i past
        rw [← Int64.ofNat_sub _ _ (not_lt.mp past), ih rest (by omega)]

theorem weightFrom_eq {cs : List Candidate} (nonneg : ∀ c ∈ cs, 0 ≤ c.weight) (w : ℕ) :
    weightFrom (Int64.ofNat w) cs = Int64.ofNat (w + (cs.map Candidate.share).sum) := by
  induction cs generalizing w with
  | nil => rfl
  | cons c cs ih =>
      obtain ⟨here, rest⟩ := List.forall_mem_cons.mp nonneg
      rw [weightFrom, List.foldl_cons, ← Candidate.ofNat_share here, ← Int64.ofNat_add]
      exact (ih rest _).trans (by rw [List.map_cons, List.sum_cons, Nat.add_assoc])

variable {e : Engine} {tier : Tier} {tried : List String} {poll : Poll}

/-- Once its poll is answered, the rest of a call draws one number below the summed weight. -/
theorem runs_pickFromTier_of_poll {w : Int64} (asked : poll.map Prod.fst = e.polled tried tier.candidates)
    (sum : weightFrom 0 poll.ready = w) (heavy : 0 < w) {rest : Trace} {out : Option Candidate} :
    Runs (e.pickFromTier tier tried) (poll.trace ++ rest) out ↔
      ∃ last, poll.ready.getLast? = some last ∧ ∃ pick : Below w, rest = [⟨.intn w, pick⟩] ∧
        out = some (scanWeights last poll.ready (Int64.ofNat pick.val)) := by
  subst sum
  have scan : Runs (e.scanTier tried tier.candidates [] 0) poll.trace
      (poll.ready, weightFrom 0 poll.ready) := runs_scanTier.mpr ⟨poll, asked, rfl, by simp⟩
  have drawn : ¬ weightFrom 0 poll.ready ≤ 0 := Int64.not_le.mpr heavy
  rw [pickFromTier]
  cases hl : poll.ready.getLast? with
  | none =>
      rw [List.getLast?_eq_none_iff.mp hl] at heavy
      cases heavy
  | some last =>
      constructor
      · intro run
        have tail := scan.of_bind run
        simp only [hl, if_neg drawn] at tail
        obtain ⟨pick, tr, rfl, done⟩ := runs_perform_bind.mp tail
        obtain ⟨rfl, rfl⟩ := runs_pure.mp done
        exact ⟨last, rfl, pick, rfl, rfl⟩
      · rintro ⟨last', same, pick, rfl, rfl⟩
        cases same
        refine runs_bind.mpr ⟨poll.trace, _, _, rfl, scan, ?_⟩
        simp only [hl, if_neg drawn]
        exact runs_perform_bind.mpr ⟨pick, [], rfl, runs_pure.mpr ⟨rfl, rfl⟩⟩

section Proportional
variable {T : ℕ} (asked : poll.map Prod.fst = e.polled tried tier.candidates)
  (nonneg : ∀ c ∈ poll.ready, 0 ≤ c.weight) (total : (poll.ready.map Candidate.share).sum = T)
  (positive : 0 < T) (fits : T < 2 ^ 63)
include nonneg total

theorem weightFrom_ready : weightFrom 0 poll.ready = Int64.ofNat T := by
  have sum := weightFrom_eq nonneg 0
  rw [Nat.zero_add, total] at sum
  exact sum

/-- Every number below the total stops the loop, at a candidate that has weight. -/
theorem exists_returnedAt (fits : T < 2 ^ 63) {pick : ℕ} (below : pick < T) :
    ∃ i c, returnedAt poll.ready (Int64.ofNat pick) = some i ∧ poll.ready[i]? = some c ∧
      c.weight ≠ 0 := by
  rw [returnedAt_eq_position nonneg (below.trans fits)]
  obtain ⟨i, found⟩ := WeightedChoice.exists_position (total ▸ below)
  have weight := WeightedChoice.position_weight found
  rw [List.getD_eq_getElem?_getD, List.getElem?_map] at weight
  cases entry : poll.ready[i]? with
  | none => simp [entry] at weight
  | some c =>
      refine ⟨i, c, found, entry, fun zero => ?_⟩
      simp [entry, Candidate.share, zero] at weight

/-- A candidate is returned for as many numbers below the total as its weight. -/
theorem card_returnedAt (fits : T < 2 ^ 63) {i : ℕ} {c : Candidate} (entry : poll.ready[i]? = some c) :
    ((Finset.range T).filter fun pick => returnedAt poll.ready (Int64.ofNat pick) = some i).card =
      c.share := by
  have same : ((Finset.range T).filter fun pick => returnedAt poll.ready (Int64.ofNat pick) = some i) =
      (Finset.range T).filter fun pick => position (poll.ready.map Candidate.share) pick = some i := by
    apply Finset.filter_congr
    intro pick below
    rw [returnedAt_eq_position nonneg ((Finset.mem_range.mp below).trans fits)]
  rw [same, ← total, WeightedChoice.card_position, List.getD_eq_getElem?_getD, List.getElem?_map, entry]
  rfl

include asked positive fits

/-- Exactly proportional selection. Once the readiness of the tier's candidates is known,
a call draws one number below the total weight T and returns from inside its loop; each
eligible candidate is returned for as many of the T numbers as its weight, and none that
is tried, not wired, not ready or without weight ever is. -/
theorem pickFromTier_proportional :
    (∀ rest out, Runs (e.pickFromTier tier tried) (poll.trace ++ rest) out ↔
        ∃ pick : Below (Int64.ofNat T), pick.val < T ∧ rest = [⟨.intn (Int64.ofNat T), pick⟩] ∧
          ∃ i c, returnedAt poll.ready (Int64.ofNat pick.val) = some i ∧ poll.ready[i]? = some c ∧
            out = some c) ∧
      (∀ i c, poll.ready[i]? = some c →
        (((Finset.range T).filter fun pick =>
          returnedAt poll.ready (Int64.ofNat pick) = some i).card : ℤ) = c.weight.toInt) ∧
      ∀ rest c, Runs (e.pickFromTier tier tried) (poll.trace ++ rest) (some c) →
        c.providerName ∉ tried ∧ e.wired c = true ∧ (c, true) ∈ poll ∧ c.weight ≠ 0 := by
  have size : (Int64.ofNat T).toInt = T := Int64.toInt_ofNat_of_lt fits
  have heavy : 0 < Int64.ofNat T := by
    rw [Int64.lt_iff_toInt_lt, size]
    exact Int.natCast_pos.mpr positive
  have below : ∀ pick : Below (Int64.ofNat T), pick.val < T := by
    intro pick
    have := pick.isLt
    omega
  have returns : ∀ rest out, Runs (e.pickFromTier tier tried) (poll.trace ++ rest) out ↔
      ∃ pick : Below (Int64.ofNat T), pick.val < T ∧ rest = [⟨.intn (Int64.ofNat T), pick⟩] ∧
        ∃ i c, returnedAt poll.ready (Int64.ofNat pick.val) = some i ∧ poll.ready[i]? = some c ∧
          out = some c := by
    intro rest out
    rw [runs_pickFromTier_of_poll asked (weightFrom_ready nonneg total) heavy]
    constructor
    · rintro ⟨last, -, pick, rfl, rfl⟩
      obtain ⟨i, c, at_, entry, -⟩ := exists_returnedAt nonneg total fits (below pick)
      refine ⟨pick, below pick, rfl, i, c, at_, entry, ?_⟩
      rw [scanWeights_eq, at_, Option.bind_some, entry, Option.getD_some]
    · rintro ⟨pick, -, rfl, i, c, at_, entry, rfl⟩
      have some : poll.ready ≠ [] := by
        intro empty
        simp [empty] at entry
      refine ⟨_, List.getLast?_eq_some_getLast some, pick, rfl, ?_⟩
      rw [scanWeights_eq, at_, Option.bind_some, entry, Option.getD_some]
  refine ⟨returns, ?_, ?_⟩
  · intro i c entry
    have ready : c ∈ poll.ready := List.mem_of_getElem? entry
    rw [card_returnedAt nonneg total fits entry, Candidate.share, Int.toNat_of_nonneg]
    exact Int64.le_iff_toInt_le.mp (nonneg c ready)
  · intro rest c run
    obtain ⟨pick, small, -, i, c', at_, entry, same⟩ := (returns rest (some c)).mp run
    obtain rfl := Option.some.inj same
    obtain ⟨j, d, at_', entry', weight⟩ := exists_returnedAt nonneg total fits small
    obtain rfl := Option.some.inj (at_.symm.trans at_')
    obtain rfl := Option.some.inj (entry.symm.trans entry')
    have ready : c ∈ poll.ready := List.mem_of_getElem? entry
    have inPolled : c ∈ e.polled tried tier.candidates := by
      rw [← asked]
      exact Poll.ready_sublist.mem ready
    obtain ⟨-, untried, wired⟩ := mem_polled.mp inPolled
    exact ⟨untried, wired, Poll.mem_ready.mp ready, weight⟩

end Proportional

/-- Two providers of weights 70 and 30 that are both ready share a hundred draws 70 to 30. -/
theorem seventy_thirty :
    let eligible : List Candidate := [⟨"a", "m", 70⟩, ⟨"b", "m", 30⟩]
    let draws (i : ℕ) := (Finset.range 100).filter fun pick =>
      returnedAt eligible (Int64.ofNat pick) = some i
    ((draws 0).card : ℤ) = 70 ∧ ((draws 1).card : ℤ) = 30 := by
  let poll : Poll := [(⟨"a", "m", 70⟩, true), (⟨"b", "m", 30⟩, true)]
  let tier : Tier := ⟨[⟨"a", "m", 70⟩, ⟨"b", "m", 30⟩]⟩
  have asked : poll.map Prod.fst = (Engine.uniform ⟨1, 1, 1⟩).polled [] tier.candidates := rfl
  have shares := (pickFromTier_proportional asked (by decide) (by decide) (by decide : 0 < 100)
    (by decide)).2.1
  exact ⟨shares 0 _ rfl, shares 1 _ rfl⟩

end Engine
end Gateway.Retry
