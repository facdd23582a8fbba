import Mathlib

/-! Reading a body line by line, as a scanner with a bounded buffer does: a line loses its
terminator and one carriage return, and a line that does not fit ends the scan. -/
namespace Scanner

abbrev Bytes := List UInt8

def utf8 (text : String) : Bytes := text.toList.flatMap String.utf8EncodeChar

/-- A line of the body and whether a line feed ended it. -/
structure Piece where
  text : Bytes
  terminated : Bool
  deriving DecidableEq

/-- Only the last piece may lack its line feed, and then it is not empty. -/
def pieces : Bytes → List Piece
  | [] => []
  | b :: rest =>
      if b = 10 then ⟨[], true⟩ :: pieces rest
      else
        match pieces rest with
        | [] => [⟨[b], false⟩]
        | p :: ps => ⟨b :: p.text, p.terminated⟩ :: ps

def dropCR (line : Bytes) : Bytes := if line.getLast? = some 13 then line.dropLast else line

def Piece.line (p : Piece) : Bytes := dropCR p.text

/-- A full buffer without a line feed is an overflow, unless the read that filled it also
reported the end of the body. -/
def Piece.fits (limit : Nat) (endsWithData : Bool) (p : Piece) : Bool :=
  decide (p.text.length < limit) ||
    (decide (p.text.length = limit) && !p.terminated && endsWithData)

def tooLong : String := "bufio.Scanner: token too long"

/-- The lines a scan yields and the error it ends with. -/
structure Scan where
  lines : List Bytes
  err : Option String

def scan (limit : Nat) (endsWithData : Bool) (body : Bytes) (failure : Option String) : Scan where
  lines := ((pieces body).takeWhile (Piece.fits limit endsWithData)).map Piece.line
  err := if (pieces body).all (Piece.fits limit endsWithData) then failure else some tooLong

/-- strings.CutPrefix. -/
def cutPrefix (start line : Bytes) : Option Bytes :=
  if start.isPrefixOf line then some (line.drop start.length) else none

theorem utf8_append (first second : String) : utf8 (first ++ second) = utf8 first ++ utf8 second := by
  rw [utf8, String.toList_append, List.flatMap_append]
  rfl

theorem cutPrefix_append (start rest : Bytes) : cutPrefix start (start ++ rest) = some rest := by
  rw [cutPrefix, if_pos (List.isPrefixOf_iff_prefix.mpr (List.prefix_append start rest)),
    List.drop_left]

theorem pieces_line {line rest : Bytes} (single : 10 ∉ line) :
    pieces (line ++ 10 :: rest) = ⟨line, true⟩ :: pieces rest := by
  induction line with
  | nil => rfl
  | cons b line ih =>
      rw [List.mem_cons, not_or] at single
      rw [List.cons_append, pieces, if_neg (Ne.symm single.1), ih single.2]

/-- A line that fits is scanned by itself. -/
theorem scan_line {limit : Nat} {endsWithData : Bool} {line rest : Bytes} {failure : Option String}
    (single : 10 ∉ line) (fit : line.length < limit) :
    (scan limit endsWithData (line ++ 10 :: rest) failure).lines =
      dropCR line :: (scan limit endsWithData rest failure).lines := by
  have fits : Piece.fits limit endsWithData ⟨line, true⟩ = true := by simp [Piece.fits, fit]
  simp only [scan, pieces_line single, List.takeWhile_cons, fits, if_true, List.map_cons]
  rfl

end Scanner
