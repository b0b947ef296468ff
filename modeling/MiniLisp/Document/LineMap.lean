/-!
# Offsets as lines and columns

Lines and columns count from zero, and a newline is the last character of its line. An offset
before the text lies on the line before the first, with its column counted from the start of
the last line.
-/

namespace MiniLisp.Document

/-- A line and a column. -/
structure Position where
  line : Int
  column : Int
deriving DecidableEq, Repr

/-- The offsets behind the newlines of a text that begins at an offset. -/
def startsFrom (offset : Nat) : List Char → List Nat
  | [] => []
  | c :: cs =>
    if c = '\n' then (offset + 1) :: startsFrom (offset + 1) cs else startsFrom (offset + 1) cs

/-- The offsets at which the lines of a text begin. -/
def lineStarts (cs : List Char) : List Nat := 0 :: startsFrom 0 cs

/-- The position of an offset, given where the lines begin: its line is the last that begins
at the offset or before. -/
def positionIn (starts : List Nat) (offset : Int) : Position :=
  let begun := starts.countP fun (start : Nat) => decide ((start : Int) ≤ offset)
  let start := if begun = 0 then starts.getLastD 0 else starts.getD (begun - 1) 0
  ⟨begun - 1, offset - start⟩

/-- The position of an offset of a text. -/
def positionOf (cs : List Char) (offset : Int) : Position := positionIn (lineStarts cs) offset

example : lineStarts "ab\ncd\n\nef".toList = [0, 3, 6, 7] := by decide
example : positionOf "ab\ncd\n\nef".toList 20 = ⟨3, 13⟩ := by decide
example : positionOf "ab\ncd\n\nef".toList (-1) = ⟨-1, -8⟩ := by decide

end MiniLisp.Document
