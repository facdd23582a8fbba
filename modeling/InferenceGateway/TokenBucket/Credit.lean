import InferenceGateway.TokenBucket.Refill

/-! What refill credits a stored bucket over a run of events, under any clock. Time that has
passed is credited by the event that writes next, so a run is credited the advances between
its writes; where the clock returns after stepping back, they add up to more than it gained. -/
namespace TokenBucket

section Readings
variable {K : Type} [LinearOrder K] {last s m : K} {ts us : List K}

/-- The largest of `last` and the readings. -/
def latest : K → List K → K
  | last, [] => last
  | last, t :: ts => max last (latest t ts)

/-- The readings rise from `last` on, and once one steps back none advances again. -/
def NoReturn : K → List K → Prop
  | _, [] => True
  | last, t :: ts => last ≤ t ∧ NoReturn t ts ∨ (last :: t :: ts).IsChain (· ≥ ·)

theorem latest_le_iff : latest last ts ≤ m ↔ last ≤ m ∧ ∀ t ∈ ts, t ≤ m := by
  induction ts generalizing last with
  | nil => simp [latest]
  | cons t ts ih => simp only [latest, max_le_iff, ih, List.forall_mem_cons]

theorem le_latest (last : K) (ts : List K) : last ≤ latest last ts := (latest_le_iff.mp le_rfl).1

theorem latest_sublist (sub : ts.Sublist us) : latest last ts ≤ latest last us := by
  obtain ⟨first, rest⟩ := latest_le_iff.mp (le_refl (latest last us))
  exact latest_le_iff.mpr ⟨first, fun t member => rest t (sub.subset member)⟩

theorem NoReturn.of_falling (falls : (last :: ts).IsChain (· ≥ ·)) : NoReturn last ts := by
  cases ts with
  | nil => trivial
  | cons t ts => exact .inr falls

theorem NoReturn.of_le (h : NoReturn last ts) (earlier : s ≤ last) : NoReturn s ts := by
  cases ts with
  | nil => trivial
  | cons t ts =>
      rcases h with ⟨rise, rest⟩ | falls
      · exact .inl ⟨earlier.trans rise, rest⟩
      · obtain ⟨-, tail⟩ := List.isChain_cons_cons.mp falls
        rcases le_total s t with rise | back
        · exact .inl ⟨rise, .of_falling tail⟩
        · exact .inr (List.isChain_cons_cons.mpr ⟨back, tail⟩)

theorem NoReturn.sublist (h : NoReturn last us) (sub : ts.Sublist us) : NoReturn last ts := by
  induction sub generalizing last with
  | slnil => trivial
  | cons u sub ih =>
      rcases h with ⟨rise, rest⟩ | falls
      · exact (ih rest).of_le rise
      · exact .of_falling (falls.sublist ((sub.cons u).cons_cons last))
  | cons_cons t sub ih =>
      rcases h with ⟨rise, rest⟩ | falls
      · exact .inl ⟨rise, ih rest⟩
      · exact .inr (falls.sublist ((sub.cons_cons t).cons_cons last))

variable [AddCommGroup K] [IsOrderedAddMonoid K]

/-- All advances of a clock read at `last` and then at `readings`. -/
def advance : K → List K → K
  | _, [] => 0
  | last, t :: ts => max 0 (t - last) + advance t ts

theorem advance_nonneg (last : K) (ts : List K) : 0 ≤ advance last ts := by
  induction ts generalizing last with
  | nil => exact le_refl 0
  | cons t ts ih => exact add_nonneg (le_max_left _ _) (ih t)

theorem advance_le_zero_iff : advance last ts ≤ 0 ↔ (last :: ts).IsChain (· ≥ ·) := by
  induction ts generalizing last with
  | nil => simp [advance]
  | cons t ts ih =>
      rw [List.isChain_cons_cons, ← ih, advance]
      constructor
      · intro none
        have step := (le_add_of_nonneg_right (advance_nonneg t ts)).trans none
        have rest := (le_add_of_nonneg_left (le_max_left 0 (t - last))).trans none
        exact ⟨sub_nonpos.mp ((le_max_right _ _).trans step), rest⟩
      · rintro ⟨step, rest⟩
        rw [max_eq_left (sub_nonpos.mpr step), zero_add]
        exact rest

theorem latest_sub_le_advance (last : K) (ts : List K) : latest last ts - last ≤ advance last ts := by
  induction ts generalizing last with
  | nil => simp [latest, advance]
  | cons t ts ih =>
      rw [sub_le_iff_le_add, latest, max_le_iff]
      constructor
      · exact le_add_of_nonneg_left (advance_nonneg last (t :: ts))
      · have tail := sub_le_iff_le_add.mp (ih t)
        have step := sub_le_iff_le_add.mp (le_max_right 0 (t - last))
        calc latest t ts ≤ advance t ts + t := tail
          _ ≤ advance t ts + (max 0 (t - last) + last) := add_le_add_right step _
          _ = advance last (t :: ts) + last := by rw [advance]; abel

/-- The advances add up to no more than the clock has gained exactly if it never returns. -/
theorem advance_le_iff : advance last ts ≤ latest last ts - last ↔ NoReturn last ts := by
  induction ts generalizing last with
  | nil => simp [advance, latest, NoReturn]
  | cons t ts ih =>
      rcases le_or_gt last t with rise | back
      · have gained : latest last (t :: ts) = latest t ts := max_eq_right (rise.trans (le_latest t ts))
        have split : latest t ts - last = t - last + (latest t ts - t) := by abel
        have goesOn : NoReturn last (t :: ts) ↔ NoReturn t ts := by
          constructor
          · rintro (⟨-, rest⟩ | falls)
            · exact rest
            · exact .of_falling (List.isChain_cons_cons.mp falls).2
          · exact fun rest => .inl ⟨rise, rest⟩
        rw [advance, gained, max_eq_right (sub_nonneg.mpr rise), split, add_le_add_iff_left, ih, goesOn]
      · have falls : NoReturn last (t :: ts) ↔ advance t ts ≤ 0 := by
          rw [advance_le_zero_iff]
          constructor
          · rintro (⟨rise, -⟩ | falls)
            · exact absurd rise (not_le.mpr back)
            · exact (List.isChain_cons_cons.mp falls).2
          · exact fun tail => .inr (List.isChain_cons_cons.mpr ⟨back.le, tail⟩)
        rw [falls, advance, max_eq_left (sub_nonpos.mpr back.le), zero_add, latest]
        constructor
        · intro covered
          have short : latest t ts - last < advance t ts :=
            (sub_lt_sub_left back _).trans_le (latest_sub_le_advance t ts)
          rcases le_total (latest t ts) last with below | above
          · rwa [max_eq_left below, sub_self] at covered
          · rw [max_eq_right above] at covered
            exact absurd covered (not_le.mpr short)
        · exact fun none => none.trans (sub_nonneg.mpr (le_max_left _ _))

end Readings

variable {K : Type} [Field K] [LinearOrder K]

def Event.writes {K : Type} : Event K → Bool
  | .take _ | .give _ => true
  | .idle => false

/-- The refill an event is credited; contents above capacity are cut, not credited. -/
def Event.credit (cap rate : K) (b : Option (Stored K)) (t : K) (ev : Event K) : K :=
  if ev.writes then max 0 (level cap rate b t - held cap b) else 0

def credited (cap rate : K) : Option (Stored K) → List (K × Event K) → K
  | _, [] => 0
  | b, (t, ev) :: rest => ev.credit cap rate b t + credited cap rate (ev.apply cap rate b t) rest

/-- The times of the events that write. -/
def written {K : Type} (events : List (K × Event K)) : List K :=
  (events.filter fun ev => ev.2.writes).map Prod.fst

theorem written_sublist {K : Type} (events : List (K × Event K)) :
    (written events).Sublist (events.map Prod.fst) := List.filter_sublist.map Prod.fst

/-- An event that writes at `t` moves the last write there. -/
theorem apply_last {cap rate t : K} {b : Option (Stored K)} {ev : Event K} (writes : ev.writes = true) :
    ∃ tokens, ev.apply cap rate b t = some ⟨tokens, t⟩ := by
  cases ev with
  | take cost => exact ⟨_, rfl⟩
  | give delta => exact ⟨_, rfl⟩
  | idle => cases writes

variable [IsStrictOrderedRing K] {cap rate last tokens : K}

theorem credited_le (nonneg : 0 ≤ rate) (events : List (K × Event K)) :
    credited cap rate (some ⟨tokens, last⟩) events ≤ rate * advance last (written events) := by
  induction events generalizing tokens last with
  | nil => simp [credited, written, advance]
  | cons ev events ih =>
      rcases ev with ⟨t, ev⟩
      cases writes : ev.writes with
      | false =>
          have idle : ev = .idle := by
            cases ev <;> first | rfl | cases writes
          subst idle
          simpa [credited, Event.credit, written, Event.writes, Event.apply] using ih
      | true =>
          obtain ⟨left, stored⟩ : ∃ left, ev.apply cap rate (some ⟨tokens, last⟩) t = some ⟨left, t⟩ :=
            apply_last writes
          have times : written ((t, ev) :: events) = t :: written events := by
            simp [written, writes]
          have refill : ev.credit cap rate (some ⟨tokens, last⟩) t ≤ rate * max 0 (t - last) := by
            rw [Event.credit, if_pos writes, max_le_iff]
            refine ⟨mul_nonneg nonneg (le_max_left _ _), ?_⟩
            rw [sub_le_iff_le_add', mul_comm]
            exact min_le_right _ _
          rw [credited, stored, times, advance, mul_add]
          exact add_le_add refill ih

/-- A run that only charges a bucket it never fills is credited every advance. -/
theorem credited_charges {charge : K} (nonneg : 0 ≤ rate) (charges : 0 ≤ charge) {ts : List K}
    (room : tokens + rate * advance last ts ≤ cap) :
    credited cap rate (some ⟨tokens, last⟩) (ts.map fun t => (t, .give (-charge))) =
      rate * advance last ts := by
  induction ts generalizing tokens last with
  | nil => simp [credited, advance]
  | cons t ts ih =>
      have refill : 0 ≤ max 0 (t - last) * rate := mul_nonneg (le_max_left _ _) nonneg
      have later : 0 ≤ rate * advance t ts := mul_nonneg nonneg (advance_nonneg t ts)
      rw [advance, mul_add, mul_comm rate (max _ _), ← add_assoc] at room
      have filled : level cap rate (some ⟨tokens, last⟩) t = tokens + max 0 (t - last) * rate :=
        min_eq_right ((le_add_of_nonneg_right later).trans room)
      have below : tokens + max 0 (t - last) * rate - charge + rate * advance t ts ≤ cap :=
        (add_le_add_left (sub_le_self _ charges) _).trans room
      have credit : (Event.give (-charge)).credit cap rate (some ⟨tokens, last⟩) t =
          max 0 (t - last) * rate := by
        change max 0 (level cap rate (some ⟨tokens, last⟩) t - tokens) = _
        rw [filled, add_sub_cancel_left, max_eq_right refill]
      have charged : (Event.give (-charge)).apply cap rate (some ⟨tokens, last⟩) t =
          some ⟨tokens + max 0 (t - last) * rate - charge, t⟩ := by
        rw [Event.apply, filled, ← sub_eq_add_neg,
          min_eq_right ((le_add_of_nonneg_right later).trans below)]
      rw [List.map_cons, credited, credit, charged, ih below, advance, mul_add, mul_comm rate (max _ _)]

end TokenBucket
