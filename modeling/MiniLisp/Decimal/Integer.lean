/-!
# Integers in decimal

Reading and writing stop at a fixed number of digits: a longer number is an integer like any
other, but has no decimal text.
-/

namespace MiniLisp.Decimal

/-- The most digits that are read or written. -/
def digitLimit : Nat := 4300

/-- The number that a run of digits stands for. -/
def ofDigits (cs : List Char) : Nat := cs.foldl (fun n c => 10 * n + (c.toNat - 48)) 0

/-- A number's text without its sign. -/
def unsigned : List Char → List Char
  | '+' :: cs => cs
  | '-' :: cs => cs
  | cs => cs

/-- Whether a number's text has a minus sign. -/
def hasMinus (cs : List Char) : Bool := cs.head? == some '-'

/-- The integer that an optional sign and digits stand for, leading zeros counting as
digits. -/
def readInt? (cs : List Char) : Option Int :=
  if (unsigned cs).length ≤ digitLimit then
    some (if hasMinus cs then -(ofDigits (unsigned cs) : Int) else ofDigits (unsigned cs))
  else none

/-- The decimal text of an integer that is short enough to have one. -/
def writeInt? (n : Int) : Option String :=
  if n.natAbs < Nat.pow 10 digitLimit then some (toString n) else none

example : readInt? "-007".toList = some (-7) := by decide
example : readInt? "+12".toList = some 12 := by decide
example : writeInt? (-12) = some "-12" := by decide +kernel

end MiniLisp.Decimal
