import InferenceGateway.Utf8.Runes

/-! WordPiece splitting of one word: the two index loops of wordpiece, and the greedy
longest-match splitting they compute. Strings are bytes, as in the source. -/
namespace Gateway.Embedding
open Utf8

abbrev Str := List UInt8

def clsToken : Str := encode "[CLS]".toList
def sepToken : Str := encode "[SEP]".toList
def unkToken : Str := encode "[UNK]".toList

def maxInputCharsPerWord : Nat := 100

structure WordPieceTokenizer where
  vocab : Str → Option Int32

/-- The prefix of a piece that continues a word. -/
def continuation : Str := encode "##".toList

/-- The substring looked up for two positions. -/
def substr (rs : List Char) (start stop : Nat) : Str :=
  if 0 < start then continuation ++ encode ((rs.take stop).drop start)
  else encode ((rs.take stop).drop start)

namespace WordPieceTokenizer

/-- The inner loop, from this end position down. -/
def matchFrom (t : WordPieceTokenizer) (rs : List Char) (start : Nat) : Nat → Option (Str × Nat)
  | 0 => none
  | stop + 1 =>
      if start < stop + 1 then
        if (t.vocab (substr rs start (stop + 1))).isSome then
          some (substr rs start (stop + 1), stop + 1)
        else t.matchFrom rs start stop
      else none

theorem matchFrom_bounds {t : WordPieceTokenizer} {rs : List Char} {start last stop : Nat}
    {matched : Str} (h : t.matchFrom rs start last = some (matched, stop)) :
    start < stop ∧ stop ≤ last := by
  induction last with
  | zero => cases h
  | succ last ih =>
      rw [matchFrom] at h
      split at h
      · split at h
        · cases h
          omega
        · have := ih h
          omega
      · cases h

/-- The outer loop. -/
def wordpieceLoop (t : WordPieceTokenizer) (rs : List Char) (start : Nat) (output : List Str) :
    List Str :=
  if start < rs.length then
    match _found : t.matchFrom rs start rs.length with
    | none => [unkToken]
    | some (matched, stop) => t.wordpieceLoop rs stop (output ++ [matched])
  else output
termination_by rs.length - start
decreasing_by
  have := matchFrom_bounds _found
  omega

def wordpiece (t : WordPieceTokenizer) (word : Str) : List Str :=
  let rs := runes word
  if maxInputCharsPerWord < rs.length then [unkToken] else t.wordpieceLoop rs 0 []

def known (t : WordPieceTokenizer) (piece : Str) : Prop := (t.vocab piece).isSome = true

instance (t : WordPieceTokenizer) (piece : Str) : Decidable (t.known piece) :=
  inferInstanceAs (Decidable ((t.vocab piece).isSome = true))

/-- The match at `start` that no longer one exceeds. -/
structure LongestMatch (t : WordPieceTokenizer) (rs : List Char) (start stop : Nat) : Prop where
  advances : start < stop
  within : stop ≤ rs.length
  known : t.known (substr rs start stop)
  longest : ∀ later, stop < later → later ≤ rs.length → ¬ t.known (substr rs start later)

/-- The pieces of the longest matches from `start` to `stop`. -/
inductive Greedy (t : WordPieceTokenizer) (rs : List Char) : Nat → List Str → Nat → Prop
  | done (start : Nat) : Greedy t rs start [] start
  | piece {start middle stop : Nat} {pieces : List Str} : t.LongestMatch rs start middle →
      Greedy t rs middle pieces stop → Greedy t rs start (substr rs start middle :: pieces) stop

/-- Nothing in the vocabulary matches at this position. -/
def NoMatch (t : WordPieceTokenizer) (rs : List Char) (start : Nat) : Prop := ∀ stop, ¬ t.LongestMatch rs start stop

/-- Greedy splitting comes to a position inside the word where nothing matches. -/
def Stuck (t : WordPieceTokenizer) (rs : List Char) : Prop :=
  ∃ pieces start, t.Greedy rs 0 pieces start ∧ start < rs.length ∧ t.NoMatch rs start

variable {t : WordPieceTokenizer} {rs : List Char} {start stop : Nat} {pieces : List Str}

theorem matchFrom_some {last : Nat} {matched : Str} (h : t.matchFrom rs start last = some (matched, stop)) :
    matched = substr rs start stop ∧ t.known matched ∧
      ∀ later, stop < later → later ≤ last → ¬ t.known (substr rs start later) := by
  induction last with
  | zero => cases h
  | succ last ih =>
      rw [matchFrom] at h
      split at h
      · split at h
        · rename_i there
          cases h
          exact ⟨rfl, there, fun later above below => absurd below (by omega)⟩
        · rename_i missing
          obtain ⟨same, there, longest⟩ := ih h
          refine ⟨same, there, fun later above below => ?_⟩
          rcases Nat.lt_or_ge last later with beyond | inside
          · rw [show later = last + 1 by omega]
            exact missing
          · exact longest later above inside
      · cases h

theorem matchFrom_none {last : Nat} (h : t.matchFrom rs start last = none) :
    ∀ stop, start < stop → stop ≤ last → ¬ t.known (substr rs start stop) := by
  induction last with
  | zero =>
      intro stop after before
      omega
  | succ last ih =>
      intro stop after before
      rw [matchFrom] at h
      split at h
      · split at h
        · cases h
        · rename_i missing
          rcases Nat.lt_or_ge last stop with beyond | inside
          · rw [show stop = last + 1 by omega]
            exact missing
          · exact ih h stop after inside
      · omega

theorem longestMatch_of_matchFrom {matched : Str}
    (h : t.matchFrom rs start rs.length = some (matched, stop)) :
    matched = substr rs start stop ∧ t.LongestMatch rs start stop := by
  obtain ⟨advances, within⟩ := matchFrom_bounds h
  obtain ⟨rfl, there, longest⟩ := matchFrom_some h
  exact ⟨rfl, advances, within, there, longest⟩

theorem noMatch_of_matchFrom (h : t.matchFrom rs start rs.length = none) : t.NoMatch rs start :=
  fun stop found => matchFrom_none h stop found.advances found.within found.known

/-- The outer loop splits greedily to the end of the word, or gets stuck on the way. -/
theorem wordpieceLoop_cases (output : List Str) (inside : start ≤ rs.length) :
    (∃ pieces, t.Greedy rs start pieces rs.length ∧
        t.wordpieceLoop rs start output = output ++ pieces) ∨
      ∃ pieces stuck, t.Greedy rs start pieces stuck ∧ stuck < rs.length ∧ t.NoMatch rs stuck ∧
        t.wordpieceLoop rs start output = [unkToken] := by
  induction left : rs.length - start using Nat.strong_induction_on generalizing start output with
  | _ n ih =>
      rw [wordpieceLoop]
      split
      · rename_i more
        split
        · rename_i missing
          exact .inr ⟨[], start, .done start, more, noMatch_of_matchFrom missing, rfl⟩
        · rename_i matched middle found
          obtain ⟨rfl, longest⟩ := longestMatch_of_matchFrom found
          have advances := longest.advances
          have within := longest.within
          rcases ih (rs.length - middle) (by omega) (output ++ [substr rs start middle]) within rfl with
            ⟨pieces, greedy, same⟩ | ⟨pieces, stuck, greedy, before, none, same⟩
          · refine .inl ⟨_, .piece longest greedy, ?_⟩
            rw [same, List.append_assoc, List.singleton_append]
          · exact .inr ⟨_, stuck, .piece longest greedy, before, none, same⟩
      · rename_i finished
        have ended : start = rs.length := by omega
        refine .inl ⟨[], ?_, (List.append_nil output).symm⟩
        rw [ended]
        exact .done rs.length

/-- The first piece and the others without their prefix. -/
def rejoin : List Str → Str
  | [] => []
  | first :: rest => first ++ (rest.map fun piece => piece.drop continuation.length).flatten

theorem slice_append {middle : Nat} (first : start ≤ middle) (second : middle ≤ stop) :
    (rs.take middle).drop start ++ (rs.take stop).drop middle = (rs.take stop).drop start := by
  have before : rs.take middle = (rs.take stop).take middle := by
    rw [List.take_take, Nat.min_eq_left second]
  rw [before, List.drop_take]
  have after : (rs.take stop).drop middle = ((rs.take stop).drop start).drop (middle - start) := by
    rw [List.drop_drop, Nat.add_sub_cancel' first]
  rw [after, List.take_append_drop]

theorem Greedy.le (h : t.Greedy rs start pieces stop) : start ≤ stop := by
  induction h with
  | done start => exact le_rfl
  | piece longest _ ih => exact longest.advances.le.trans ih

theorem Greedy.known (h : t.Greedy rs start pieces stop) : ∀ piece ∈ pieces, t.known piece := by
  induction h with
  | done start => simp
  | piece longest _ ih =>
      intro piece member
      rcases List.mem_cons.mp member with rfl | later
      · exact longest.known
      · exact ih piece later

/-- Past the beginning every piece is a continuation, and without the prefixes they are the word
between the two positions. -/
theorem Greedy.continued (h : t.Greedy rs start pieces stop) (inside : 0 < start) :
    (∀ piece ∈ pieces, continuation <+: piece) ∧
      (pieces.map fun piece => piece.drop continuation.length).flatten =
        encode ((rs.take stop).drop start) := by
  induction h with
  | done start =>
      have empty : (rs.take start).drop start = [] := List.drop_eq_nil_of_le (List.length_take_le _ _)
      simp [empty]
  | @piece start middle stop pieces longest rest ih =>
      obtain ⟨later, joined⟩ := ih (inside.trans longest.advances)
      have shape : substr rs start middle = continuation ++ encode ((rs.take middle).drop start) :=
        if_pos inside
      constructor
      · intro piece member
        rcases List.mem_cons.mp member with rfl | tail
        · rw [shape]
          exact List.prefix_append _ _
        · exact later piece tail
      · rw [List.map_cons, List.flatten_cons, joined, shape, List.drop_left, ← encode_append,
          slice_append longest.advances.le rest.le]

theorem Greedy.joined (h : t.Greedy rs 0 pieces stop) :
    (∀ piece ∈ pieces.tail, continuation <+: piece) ∧ rejoin pieces = encode (rs.take stop) := by
  cases h with
  | done => simp [rejoin]
  | @piece _ middle _ pieces longest rest =>
      obtain ⟨later, joined⟩ := rest.continued longest.advances
      have whole : (rs.take middle).drop 0 ++ (rs.take stop).drop middle = (rs.take stop).drop 0 :=
        slice_append (Nat.zero_le middle) rest.le
      refine ⟨later, ?_⟩
      have shape : substr rs 0 middle = encode (rs.take middle) := if_neg (lt_irrefl 0)
      rw [rejoin, joined, shape, ← encode_append]
      rw [List.drop_zero, List.drop_zero] at whole
      rw [whole]

theorem LongestMatch.unique {other : Nat} (h : t.LongestMatch rs start stop)
    (again : t.LongestMatch rs start other) : stop = other := by
  rcases Nat.lt_trichotomy stop other with below | same | above
  · exact absurd again.known (h.longest other below again.within)
  · exact same
  · exact absurd h.known (again.longest stop above h.within)

/-- Where it can go no further, greedy splitting has only one result. -/
theorem Greedy.unique {others : List Str} {other : Nat} (h : t.Greedy rs start pieces stop)
    (ends : t.NoMatch rs stop) (again : t.Greedy rs start others other)
    (other_ends : t.NoMatch rs other) : pieces = others ∧ stop = other := by
  induction h generalizing others with
  | done start =>
      cases again with
      | done => exact ⟨rfl, rfl⟩
      | piece longest _ => exact absurd longest (ends _)
  | piece longest _ ih =>
      cases again with
      | done => exact absurd longest (other_ends _)
      | piece second rest =>
          cases longest.unique second
          obtain ⟨same, position⟩ := ih ends rest
          exact ⟨congrArg _ same, position⟩

theorem noMatch_length : t.NoMatch rs rs.length := by
  intro stop longest
  have advances := longest.advances
  have within := longest.within
  omega

/-- What a result other than [UNK] is. -/
structure Splits (t : WordPieceTokenizer) (word : Str) (out : List Str) : Prop where
  known : ∀ piece ∈ out, t.known piece
  continued : ∀ piece ∈ out.tail, continuation <+: piece
  joined : rejoin out = encode (runes word)
  lossless : Valid word → rejoin out = word
  greedy : t.Greedy (runes word) 0 out (runes word).length

theorem Greedy.splits {word : Str} (h : t.Greedy (runes word) 0 pieces (runes word).length) :
    t.Splits word pieces := by
  obtain ⟨continued, joined⟩ := h.joined
  rw [List.take_length] at joined
  exact ⟨h.known, continued, joined, fun valid => joined.trans valid.encode_runes, h⟩

theorem substr_unk : substr (runes unkToken) 0 (runes unkToken).length = unkToken := by decide

/-- A vocabulary with [UNK] matches the word [UNK] as a whole. -/
theorem greedy_unk (there : t.known unkToken) :
    t.Greedy (runes unkToken) 0 [unkToken] (runes unkToken).length := by
  have longest : t.LongestMatch (runes unkToken) 0 (runes unkToken).length := by
    refine ⟨by decide, le_rfl, ?_, fun later above below => absurd below (by omega)⟩
    rw [substr_unk]
    exact there
  have whole := Greedy.piece longest (.done (runes unkToken).length)
  rwa [substr_unk] at whole

theorem eq_unk_of_encode {word : Str} (h : encode (runes word) = unkToken) : word = unkToken := by
  have rs : runes word = "[UNK]".toList := encode_injective h
  rw [← h]
  refine (encode_runes_of_intact ?_).symm
  rw [rs]
  decide

/-- Every word is split greedily and without loss, or answered with [UNK]: when it is too long,
when splitting gets stuck, and when it is itself the known [UNK]. -/
theorem wordpiece_splits_greedily (t : WordPieceTokenizer) (word : Str) :
    (t.wordpiece word = [unkToken] ∨ t.Splits word (t.wordpiece word)) ∧
      (t.wordpiece word = [unkToken] ↔
        maxInputCharsPerWord < (runes word).length ∨ t.Stuck (runes word) ∨
          (word = unkToken ∧ t.known unkToken)) := by
  unfold wordpiece
  dsimp only
  split
  · rename_i long
    exact ⟨.inl rfl, by simp [long]⟩
  · rename_i short
    rcases wordpieceLoop_cases (t := t) [] (Nat.zero_le (runes word).length) with
      ⟨pieces, greedy, same⟩ | ⟨pieces, stuck, greedy, before, none, same⟩
    · rw [List.nil_append] at same
      have splits := greedy.splits
      rw [same]
      refine ⟨.inr splits, ?_⟩
      constructor
      · rintro rfl
        have reads : encode (runes word) = unkToken := by
          rw [← splits.joined]
          simp [rejoin]
        exact .inr (.inr ⟨eq_unk_of_encode reads, splits.known _ (List.mem_singleton_self _)⟩)
      · rintro (long | ⟨others, stuck, other, before, none⟩ | ⟨rfl, there⟩)
        · exact absurd long short
        · exact absurd (greedy.unique noMatch_length other none).2 (by omega)
        · exact (greedy.unique noMatch_length (greedy_unk there) noMatch_length).1
    · rw [same]
      exact ⟨.inl rfl, fun _ => .inr (.inl ⟨pieces, stuck, greedy, before, none⟩), fun _ => rfl⟩

/-- A vocabulary of one token. -/
def single (token : Str) : WordPieceTokenizer := ⟨fun piece => if piece = token then some 100 else none⟩

/-- The word [UNK] is matched, and answered with [UNK]; a byte that is no text is matched as the
replacement character. -/
theorem unk_itself_and_invalid_byte :
    ((single unkToken).wordpiece unkToken = [unkToken] ∧
        ¬ (maxInputCharsPerWord < (runes unkToken).length ∨ (single unkToken).Stuck (runes unkToken))) ∧
      (single (encode [replacement])).wordpiece [255] ≠ [unkToken] ∧
      rejoin ((single (encode [replacement])).wordpiece [255]) ≠ [255] := by
  refine ⟨⟨by decide +kernel, ?_⟩, by decide +kernel, by decide +kernel⟩
  rintro (long | ⟨pieces, stuck, greedy, before, none⟩)
  · revert long
    decide
  · have whole := greedy_unk (t := single unkToken) (by decide)
    have same := (whole.unique noMatch_length greedy none).2
    omega

end WordPieceTokenizer
end Gateway.Embedding
