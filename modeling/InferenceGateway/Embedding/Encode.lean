import InferenceGateway.Embedding.WordPiece

/-! From text to model input: cleaning, basic tokenisation on whitespace and punctuation, and
the framed and truncated id sequence of Encode. -/
namespace Gateway.Embedding
open Utf8

/-- Tables and transformations of package unicode, strings and norm: the categories P, S and Mn,
strings.ToLower and norm.NFD. -/
structure Unicode where
  punct : Char → Bool
  symbol : Char → Bool
  mn : Char → Bool
  toLower : Str → Str
  nfd : Str → Str

/-- Category Zs. -/
def isZs (r : Char) : Bool :=
  r.toNat = 0x20 || r.toNat = 0xA0 || r.toNat = 0x1680 || (0x2000 ≤ r.toNat && r.toNat ≤ 0x200A) ||
    r.toNat = 0x202F || r.toNat = 0x205F || r.toNat = 0x3000

def isWhitespace (r : Char) : Bool :=
  r = ' ' || r = '\t' || r = '\n' || r = '\r' || isZs r

/-- Category Cc, less the three that count as whitespace. -/
def isControl (r : Char) : Bool :=
  if r = '\t' || r = '\n' || r = '\r' then false
  else r.toNat < 0x20 || (0x7F ≤ r.toNat && r.toNat < 0xA0)

namespace Unicode
variable (u : Unicode)

def isPunct (r : Char) : Bool :=
  (33 ≤ r.toNat && r.toNat ≤ 47) || (58 ≤ r.toNat && r.toNat ≤ 64) ||
    (91 ≤ r.toNat && r.toNat ≤ 96) || (123 ≤ r.toNat && r.toNat ≤ 126) || u.punct r || u.symbol r

def stripAccents (s : Str) : Str := encode ((runes (u.nfd s)).filter fun r => !u.mn r)

end Unicode

/-- The loop of cleanText over the runes. -/
def cleanRunes : List Char → List Char
  | [] => []
  | r :: rest =>
      if r.toNat = 0 ∨ r = replacement ∨ isControl r = true then cleanRunes rest
      else if isWhitespace r then ' ' :: cleanRunes rest
      else r :: cleanRunes rest

def cleanText (s : Str) : Str := encode (cleanRunes (runes s))

/-- The closure flush, on the tokens so far and the builder. -/
def flush (tokens : List Str) (cur : Str) : List Str :=
  if 0 < cur.length then tokens ++ [cur] else tokens

namespace Unicode

/-- The loop of basicTokenize over the runes of the clean text. -/
def tokenizeLoop (u : Unicode) : List Char → List Str → Str → List Str
  | [], tokens, cur => flush tokens cur
  | r :: rest, tokens, cur =>
      if isWhitespace r then u.tokenizeLoop rest (flush tokens cur) []
      else if u.isPunct r then u.tokenizeLoop rest (flush tokens cur ++ [encode [r]]) []
      else u.tokenizeLoop rest tokens (cur ++ encode [r])

def basicTokenize (u : Unicode) (text : Str) : List Str := u.tokenizeLoop (runes (cleanText text)) [] []

/-- A token is one punctuation rune, or some runes that are neither punctuation nor space. -/
def IsToken (u : Unicode) (token : Str) : Prop :=
  token ≠ [] ∧ ((∃ r, u.isPunct r = true ∧ token = encode [r]) ∨
    ∀ r ∈ runes token, u.isPunct r = false ∧ isWhitespace r = false)

/-- The builder holds runes that are neither punctuation nor space. -/
def Plain (u : Unicode) (rs : List Char) : Prop := ∀ r ∈ rs, u.isPunct r = false ∧ isWhitespace r = false

variable {u : Unicode} {tokens : List Str} {rs cur : List Char}

theorem flush_isToken (plain : u.Plain cur) (tokens_ok : ∀ token ∈ tokens, u.IsToken token) :
    ∀ token ∈ flush tokens (encode cur), u.IsToken token := by
  unfold flush
  split
  · rename_i something
    intro token member
    rcases List.mem_append.mp member with old | new
    · exact tokens_ok token old
    · rw [List.mem_singleton.mp new]
      refine ⟨List.ne_nil_of_length_pos something, .inr ?_⟩
      rw [runes_encode]
      exact plain
  · exact tokens_ok

theorem flush_flatten (tokens : List Str) (cur : Str) :
    (flush tokens cur).flatten = tokens.flatten ++ cur := by
  unfold flush
  split
  · simp
  · rename_i nothing
    have empty : cur = [] := List.eq_nil_of_length_eq_zero (by omega)
    simp [empty]

theorem encode_single_ne_nil (r : Char) : encode [r] ≠ [] := by
  intro empty
  have back := congrArg runes empty
  rw [runes_encode] at back
  cases back

/-- One rune of the loop at a time: what is in the tokens and the builder is the text so far
without its whitespace. -/
theorem tokenizeLoop_spec (plain : u.Plain cur) (tokens_ok : ∀ token ∈ tokens, u.IsToken token) :
    (∀ token ∈ u.tokenizeLoop rs tokens (encode cur), u.IsToken token) ∧
      (u.tokenizeLoop rs tokens (encode cur)).flatten =
        tokens.flatten ++ encode cur ++ encode (rs.filter fun r => !isWhitespace r) := by
  induction rs generalizing tokens cur with
  | nil =>
      rw [tokenizeLoop]
      refine ⟨flush_isToken plain tokens_ok, ?_⟩
      rw [flush_flatten, List.filter_nil, encode_nil, List.append_nil]
  | cons r rest ih =>
      have flushed := flush_isToken plain tokens_ok
      have fresh : u.Plain [] := by simp [Plain]
      rw [tokenizeLoop]
      split
      · rename_i space
        obtain ⟨all, joined⟩ := ih fresh flushed
        refine ⟨all, ?_⟩
        rw [encode_nil] at joined
        rw [joined, flush_flatten, List.append_nil, List.filter_cons_of_neg (by simp [space])]
      · rename_i visible
        have kept : encode ((r :: rest).filter fun r => !isWhitespace r) =
            encode [r] ++ encode (rest.filter fun r => !isWhitespace r) := by
          rw [List.filter_cons_of_pos (by simp [visible]), ← encode_append, List.singleton_append]
        rw [kept]
        split
        · rename_i mark
          have token : u.IsToken (encode [r]) := ⟨encode_single_ne_nil r, .inl ⟨r, mark, rfl⟩⟩
          have marked : ∀ token ∈ flush tokens (encode cur) ++ [encode [r]], u.IsToken token := by
            intro other member
            rcases List.mem_append.mp member with old | new
            · exact flushed other old
            · rw [List.mem_singleton.mp new]
              exact token
          obtain ⟨all, joined⟩ := ih fresh marked
          refine ⟨all, ?_⟩
          rw [encode_nil] at joined
          rw [joined, List.flatten_append, flush_flatten]
          simp only [List.flatten_singleton, List.append_nil, List.append_assoc]
        · rename_i letter
          have longer : u.Plain (cur ++ [r]) := by
            intro other member
            rcases List.mem_append.mp member with old | new
            · exact plain other old
            · rw [List.mem_singleton.mp new]
              exact ⟨by simpa using letter, by simpa using visible⟩
          have result := ih longer tokens_ok
          rw [encode_append] at result
          refine ⟨result.1, ?_⟩
          rw [result.2]
          simp only [List.append_assoc]

theorem basicTokenize_spec (u : Unicode) (text : Str) :
    (∀ token ∈ u.basicTokenize text, u.IsToken token) ∧
      (u.basicTokenize text).flatten =
        encode ((runes (cleanText text)).filter fun r => !isWhitespace r) :=
  @tokenizeLoop_spec u [] (runes (cleanText text)) [] (by simp [Plain]) (by simp)

end Unicode
namespace WordPieceTokenizer

/-- The pieces of the whole text. -/
def pieces (t : WordPieceTokenizer) (u : Unicode) (text : Str) : List Str :=
  (u.basicTokenize (u.stripAccents (u.toLower text))).flatMap t.wordpiece

/-- The lookup of one piece; a missing [UNK] has id zero. -/
def idOf (t : WordPieceTokenizer) (piece : Str) : Int64 :=
  match t.vocab piece with
  | some id => id.toInt64
  | none => ((t.vocab unkToken).getD 0).toInt64

structure Encoded where
  inputIDs : List Int64
  attentionMask : List Int64
  tokenTypeIDs : List Int64
  deriving DecidableEq

/-- The cut to maxSeqLen; `none` is the panic of a slice bound below zero. -/
def truncate (framed : List Str) (maxSeqLen : Int) : Option (List Str) :=
  if maxSeqLen < framed.length then
    if maxSeqLen < 1 then none else some (framed.take (maxSeqLen - 1).toNat ++ [sepToken])
  else some framed

/-- The three slices for a sequence of ids. -/
def Encoded.ofIDs (inputIDs : List Int64) : Encoded :=
  ⟨inputIDs, inputIDs.map fun _ => 1, inputIDs.map fun _ => 0⟩

def encode (t : WordPieceTokenizer) (u : Unicode) (text : Str) (maxSeqLen : Int) : Option Encoded :=
  (truncate ([clsToken] ++ t.pieces u text ++ [sepToken]) maxSeqLen).map fun framed =>
    .ofIDs (framed.map t.idOf)

/-- The cut leaves the frame and as many pieces as fit between. -/
theorem truncate_framed (pieces : List Str) {maxSeqLen : Int} (room : 2 ≤ maxSeqLen) :
    truncate ([clsToken] ++ pieces ++ [sepToken]) maxSeqLen =
      some (clsToken :: (pieces.take (maxSeqLen - 2).toNat ++ [sepToken])) := by
  obtain ⟨n, rfl⟩ : ∃ n : Nat, maxSeqLen = n + 2 := ⟨(maxSeqLen - 2).toNat, by omega⟩
  have inner : ((n + 2 : Int) - 2).toNat = n := by omega
  have outer : ((n + 2 : Int) - 1).toNat = n + 1 := by omega
  have length : ([clsToken] ++ pieces ++ [sepToken]).length = pieces.length + 2 := by simp
  rw [truncate, inner, outer, length]
  split
  · rename_i long
    have more : n ≤ pieces.length := by omega
    rw [if_neg (by omega)]
    congr 1
    rw [List.append_assoc, List.singleton_append, List.take_succ_cons,
      List.take_append_of_le_length more, List.cons_append]
  · rename_i fits
    have all : pieces.take n = pieces := List.take_of_length_le (by omega)
    rw [all]
    rfl

theorem idOf_of_vocab {t : WordPieceTokenizer} {piece : Str} {id : Int32}
    (there : t.vocab piece = some id) : t.idOf piece = id.toInt64 := by
  simp only [idOf, there]

/-- Basic tokenisation loses nothing but whitespace, and Encode frames the longest prefix of the
text's ids that fits. -/
theorem encode_frames_and_truncates (u : Unicode) :
    (∀ text, (∀ token ∈ u.basicTokenize text, u.IsToken token) ∧
      (u.basicTokenize text).flatten =
        Utf8.encode ((runes (cleanText text)).filter fun r => !isWhitespace r)) ∧
    ∀ (t : WordPieceTokenizer) (cls sep : Int32) (text : Str) (maxSeqLen : Int),
      t.vocab clsToken = some cls → t.vocab sepToken = some sep → 2 ≤ maxSeqLen →
      ∃ e between, t.encode u text maxSeqLen = some e ∧
        e.attentionMask.length = e.inputIDs.length ∧ e.tokenTypeIDs.length = e.inputIDs.length ∧
        e.inputIDs.length ≤ maxSeqLen ∧
        e.inputIDs = cls.toInt64 :: (between ++ [sep.toInt64]) ∧
        between <+: (t.pieces u text).map t.idOf ∧
        ∀ other, other <+: (t.pieces u text).map t.idOf → other.length + 2 ≤ maxSeqLen →
          other.length ≤ between.length := by
  refine ⟨u.basicTokenize_spec, ?_⟩
  intro t cls sep text maxSeqLen has_cls has_sep room
  let between := ((t.pieces u text).map t.idOf).take (maxSeqLen - 2).toNat
  have ran : t.encode u text maxSeqLen = some (.ofIDs (cls.toInt64 :: (between ++ [sep.toInt64]))) := by
    rw [encode, truncate_framed (t.pieces u text) room, Option.map_some, List.map_cons,
      List.map_append, List.map_take, idOf_of_vocab has_cls, List.map_singleton,
      idOf_of_vocab has_sep]
  refine ⟨_, between, ran, List.length_map _, List.length_map _, ?_, rfl, List.take_prefix _ _, ?_⟩
  · simp only [Encoded.ofIDs, between, List.length_cons, List.length_append, List.length_take,
      List.length_nil]
    omega
  · intro other inside fits
    have bound := inside.length_le
    rw [List.length_take]
    omega

/-- Text that is its own lower case and decomposition, with ASCII punctuation only. -/
def ascii : Unicode := ⟨fun _ => false, fun _ => false, fun _ => false, id, id⟩

def greetings : WordPieceTokenizer where
  vocab piece :=
    if piece = clsToken then some 101
    else if piece = sepToken then some 102
    else if piece = unkToken then some 100
    else if piece = Utf8.encode "hello".toList then some 7592
    else none

theorem greeting_truncated :
    greetings.vocab clsToken = some 101 ∧ greetings.vocab sepToken = some 102 ∧
      greetings.encode ascii (Utf8.encode "hello, hello".toList) 4 =
        some ⟨[101, 7592, 100, 102], [1, 1, 1, 1], [0, 0, 0, 0]⟩ ∧
      ∃ e between, greetings.encode ascii (Utf8.encode "hello, hello".toList) 4 = some e ∧
        e.inputIDs = (101 : Int32).toInt64 :: (between ++ [(102 : Int32).toInt64]) ∧
        between <+: (greetings.pieces ascii (Utf8.encode "hello, hello".toList)).map greetings.idOf := by
  have cls : greetings.vocab clsToken = some 101 := by decide
  have sep : greetings.vocab sepToken = some 102 := by decide
  obtain ⟨e, between, ran, -, -, -, ids, inside, -⟩ := (encode_frames_and_truncates ascii).2 greetings
    101 102 (Utf8.encode "hello, hello".toList) 4 cls sep (by decide)
  exact ⟨cls, sep, by decide +kernel, e, between, ran, ids, inside⟩

end WordPieceTokenizer
end Gateway.Embedding
