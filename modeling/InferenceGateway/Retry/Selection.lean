import InferenceGateway.Retry.Engine

/-! What one call of pickFromTier can do. Readiness is polled once for each wired,
untried candidate, in order; the poll together with the random pick determines the
answer, and every poll is possible. -/
namespace Gateway.Retry
open Gateway.Providers Interaction Interaction.Program

namespace Engine

def wired (e : Engine) (c : Candidate) : Bool := (e.providers c.providerName).isSome

/-- The candidates whose readiness a scan asks for. -/
def polled (e : Engine) (tried : List String) (cs : List Candidate) : List Candidate :=
  cs.filter fun c => decide (c.providerName ∉ tried) && e.wired c

end Engine

/-- The readiness replies of one scan. -/
abbrev Poll := List (Candidate × Bool)

def Poll.ready (poll : Poll) : List Candidate := (poll.filter Prod.snd).map Prod.fst

def Poll.trace (poll : Poll) : Trace :=
  poll.map fun q => ⟨.ready q.1.providerName q.1.model, q.2⟩

/-- The 64-bit sum of the weights, added in order. -/
def weightFrom (w : Int64) (cs : List Candidate) : Int64 := cs.foldl (fun w c => w + c.weight) w

@[simp] theorem Poll.ready_nil : Poll.ready [] = [] := rfl

@[simp] theorem Poll.ready_cons_true (c : Candidate) (poll : Poll) :
    Poll.ready ((c, true) :: poll) = c :: poll.ready := rfl

@[simp] theorem Poll.ready_cons_false (c : Candidate) (poll : Poll) :
    Poll.ready ((c, false) :: poll) = poll.ready := rfl

theorem Poll.mem_ready {poll : Poll} {c : Candidate} : c ∈ poll.ready ↔ (c, true) ∈ poll := by
  unfold Poll.ready
  rw [List.mem_map]
  constructor
  · rintro ⟨q, member, rfl⟩
    obtain ⟨inPoll, up⟩ := List.mem_filter.mp member
    rw [← up]
    exact inPoll
  · intro member
    exact ⟨(c, true), List.mem_filter.mpr ⟨member, rfl⟩, rfl⟩

theorem Poll.ready_sublist {poll : Poll} : poll.ready.Sublist (poll.map Prod.fst) :=
  List.filter_sublist.map Prod.fst

namespace Engine
variable {e : Engine} {tried : List String}

theorem polled_cons_of_asked {c : Candidate} {cs : List Candidate}
    (untried : c.providerName ∉ tried) (hw : e.wired c = true) :
    e.polled tried (c :: cs) = c :: e.polled tried cs := by
  simp [polled, untried, hw]

theorem polled_cons_of_tried {c : Candidate} {cs : List Candidate} (h : c.providerName ∈ tried) :
    e.polled tried (c :: cs) = e.polled tried cs := by
  simp [polled, h]

theorem polled_cons_of_unwired {c : Candidate} {cs : List Candidate} (h : e.wired c = false) :
    e.polled tried (c :: cs) = e.polled tried cs := by
  simp [polled, h]

theorem mem_polled {c : Candidate} {cs : List Candidate} :
    c ∈ e.polled tried cs ↔ c ∈ cs ∧ c.providerName ∉ tried ∧ e.wired c = true := by
  simp [polled]

/-- A scan is determined by its poll, and any poll of the asked candidates occurs. -/
theorem runs_scanTier {cs eligible : List Candidate} {w : Int64} {tr : Trace}
    {out : List Candidate × Int64} :
    Runs (e.scanTier tried cs eligible w) tr out ↔
      ∃ poll : Poll, poll.map Prod.fst = e.polled tried cs ∧ tr = poll.trace ∧
        out = (eligible ++ poll.ready, weightFrom w poll.ready) := by
  induction cs generalizing eligible w tr with
  | nil =>
      rw [scanTier, runs_pure]
      constructor
      · rintro ⟨rfl, rfl⟩
        exact ⟨[], rfl, rfl, by simp [weightFrom]⟩
      · rintro ⟨poll, asked, rfl, rfl⟩
        have none : poll = [] := List.map_eq_nil_iff.mp asked
        subst none
        exact ⟨rfl, by simp [weightFrom]⟩
  | cons c cs ih =>
      by_cases old : c.providerName ∈ tried
      · rw [scanTier, if_pos old, ih, polled_cons_of_tried old]
      · by_cases hw : e.wired c = true
        · have some : (e.providers c.providerName).isNone = false := by
            simpa [wired] using hw
          rw [scanTier, if_neg old, if_neg (by simp [some]), runs_perform_bind,
            polled_cons_of_asked old hw]
          constructor
          · rintro ⟨up, tr', rfl, rest⟩
            cases up with
            | true =>
                obtain ⟨poll, asked, rfl, rfl⟩ := ih.mp rest
                exact ⟨(c, true) :: poll, by simp [asked], rfl, by simp [weightFrom]⟩
            | false =>
                obtain ⟨poll, asked, rfl, rfl⟩ := ih.mp rest
                exact ⟨(c, false) :: poll, by simp [asked], rfl, by simp⟩
          · rintro ⟨poll, asked, rfl, rfl⟩
            obtain ⟨⟨d, up⟩, rest, rfl⟩ := List.exists_cons_of_ne_nil
              (l := poll) (by rintro rfl; simp at asked)
            obtain ⟨rfl, restAsked⟩ := List.cons.inj asked
            refine ⟨up, Poll.trace rest, rfl, ?_⟩
            cases up with
            | true => exact ih.mpr ⟨rest, restAsked, rfl, by simp [weightFrom]⟩
            | false => exact ih.mpr ⟨rest, restAsked, rfl, by simp⟩
        · have missing : e.wired c = false := by simpa using hw
          have none : (e.providers c.providerName).isNone = true := by
            simpa [wired] using missing
          rw [scanTier, if_neg old, if_pos none, ih, polled_cons_of_unwired missing]

theorem scanWeights_mem {last : Candidate} {cs : List Candidate} (h : last ∈ cs) (pick : Int64) :
    scanWeights last cs pick ∈ cs := by
  have general : ∀ (rest : List Candidate) (pick : Int64),
      scanWeights last rest pick = last ∨ scanWeights last rest pick ∈ rest := by
    intro rest
    induction rest with
    | nil => intro pick; exact .inl rfl
    | cons c rest ih =>
        intro pick
        rw [scanWeights]
        split
        · exact .inr List.mem_cons_self
        · rcases ih (pick - c.weight) with same | member
          · exact .inl same
          · exact .inr (List.mem_cons_of_mem c member)
  rcases general cs pick with same | member
  · rw [same]; exact h
  · exact member

/-- No candidate is picked exactly when none is ready or the weights sum to zero or
less in 64 bits; otherwise one random number below the sum decides. -/
theorem runs_pickFromTier {tier : Tier} {tr : Trace} {out : Option Candidate} :
    Runs (e.pickFromTier tier tried) tr out ↔
      ∃ poll : Poll, poll.map Prod.fst = e.polled tried tier.candidates ∧
        ((out = none ∧ (poll.ready = [] ∨ weightFrom 0 poll.ready ≤ 0) ∧ tr = poll.trace) ∨
          ∃ last, poll.ready.getLast? = some last ∧ ¬ weightFrom 0 poll.ready ≤ 0 ∧
            ∃ pick : Below (weightFrom 0 poll.ready),
              out = some (scanWeights last poll.ready (Int64.ofNat pick.val)) ∧
              tr = poll.trace ++ [⟨.intn (weightFrom 0 poll.ready), pick⟩]) := by
  rw [pickFromTier, runs_bind]
  constructor
  · rintro ⟨tr₁, ⟨eligible, total⟩, tr₂, rfl, scan, rest⟩
    obtain ⟨poll, asked, rfl, same⟩ := runs_scanTier.mp scan
    obtain ⟨rfl, rfl⟩ := Prod.mk.inj same
    simp only [List.nil_append] at rest
    refine ⟨poll, asked, ?_⟩
    cases hl : poll.ready.getLast? with
    | none =>
        simp only [hl] at rest
        obtain ⟨rfl, rfl⟩ := runs_pure.mp rest
        exact .inl ⟨rfl, .inl (List.getLast?_eq_none_iff.mp hl), by simp⟩
    | some last =>
        simp only [hl] at rest
        by_cases drained : weightFrom 0 poll.ready ≤ 0
        · rw [if_pos drained] at rest
          obtain ⟨rfl, rfl⟩ := runs_pure.mp rest
          exact .inl ⟨rfl, .inr drained, by simp⟩
        · rw [if_neg drained] at rest
          obtain ⟨pick, tr', rfl, done⟩ := runs_perform_bind.mp rest
          obtain ⟨rfl, rfl⟩ := runs_pure.mp done
          exact .inr ⟨last, rfl, drained, pick, rfl, rfl⟩
  · rintro ⟨poll, asked, ⟨rfl, empty, rfl⟩ | ⟨last, hl, drained, pick, rfl, rfl⟩⟩
    · refine ⟨poll.trace, (poll.ready, weightFrom 0 poll.ready), [], by simp,
        runs_scanTier.mpr ⟨poll, asked, rfl, by simp⟩, ?_⟩
      cases hl : poll.ready.getLast? with
      | none =>
          simp only
          exact runs_pure.mpr ⟨rfl, rfl⟩
      | some last =>
          have light : weightFrom 0 poll.ready ≤ 0 := by
            rcases empty with none | light
            · rw [none] at hl; cases hl
            · exact light
          simp only [if_pos light]
          exact runs_pure.mpr ⟨rfl, rfl⟩
    · refine ⟨poll.trace, (poll.ready, weightFrom 0 poll.ready), _, rfl,
        runs_scanTier.mpr ⟨poll, asked, rfl, by simp⟩, ?_⟩
      simp only [hl, if_neg drained]
      exact runs_perform_bind.mpr ⟨pick, [], rfl, runs_pure.mpr ⟨rfl, rfl⟩⟩

/-- Whatever the breakers and the random source do, a picked candidate is a wired
member of the tier that was not tried before and reported ready. -/
theorem pickFromTier_some {tier : Tier} {tr : Trace} {c : Candidate}
    (h : Runs (e.pickFromTier tier tried) tr (some c)) :
    c ∈ tier.candidates ∧ c.providerName ∉ tried ∧ e.wired c = true := by
  obtain ⟨poll, asked, ⟨none, -⟩ | ⟨last, hl, -, pick, same, -⟩⟩ := runs_pickFromTier.mp h
  · cases none
  · have inReady : c ∈ poll.ready := by
      rw [Option.some.inj same]
      exact scanWeights_mem (List.mem_of_getLast? hl) _
    have inPolled : c ∈ e.polled tried tier.candidates := by
      rw [← asked]
      exact Poll.ready_sublist.mem inReady
    exact mem_polled.mp inPolled

/-- Candidates of a tier that a request has not tried yet. -/
def untried (tier : Tier) (tried : List String) : Nat :=
  tier.candidates.countP fun c => decide (c.providerName ∉ tried)

theorem untried_decreases {tier : Tier} {c : Candidate} (member : c ∈ tier.candidates)
    (fresh : c.providerName ∉ tried) :
    untried tier (c.providerName :: tried) < untried tier tried := by
  have weaker : ∀ (cs : List Candidate),
      cs.countP (fun d => decide (d.providerName ∉ c.providerName :: tried)) ≤
        cs.countP (fun d => decide (d.providerName ∉ tried)) := by
    intro cs
    apply List.countP_mono_left
    intro d _ h
    simp only [List.mem_cons, not_or, decide_eq_true_eq] at h ⊢
    exact h.2
  obtain ⟨before, after, split⟩ := List.append_of_mem member
  have left := weaker before
  have right := weaker after
  simp only [untried, split, List.countP_append, List.countP_cons, List.mem_cons_self,
    not_true_eq_false, decide_false, Bool.false_eq_true, if_false, fresh, not_false_eq_true,
    decide_true, if_true]
  omega

theorem untried_le (tier : Tier) (tried : List String) :
    untried tier tried ≤ tier.candidates.length := List.countP_le_length

end Engine
end Gateway.Retry
