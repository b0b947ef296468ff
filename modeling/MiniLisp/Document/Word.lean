import MiniLisp.Fault
import MiniLisp.Text.Lines
import MiniLisp.Text.Slice
import MiniLisp.Text.Word

/-!
# The word at a position

The word at a column of a row is the run of word characters around it. Negative rows count
from the last one. A negative column has nothing before it and is followed by the row from
there on, and then by the whole row.
-/

namespace MiniLisp.Document

open MiniLisp.Text

/-- Where the word at a column of a row begins. -/
def wordStart (row : List Char) (column : Int) : Int :=
  column - ((row.take column.toNat).reverse.takeWhile isWordChar).length

/-- The characters that the word at a column may go on with. -/
def following (row : List Char) (column : Int) : List Char :=
  if column < 0 then row.drop (column + row.length).toNat ++ row else row.drop column.toNat

/-- The word at a column of a row, which is not behind the row's end. -/
def wordInRow (row : List Char) (column : Int) : Except Fault (Option (List Char)) :=
  if column + row.length < 0 then .error .noSuchColumn
  else
    let stop := column + ((following row column).takeWhile isWordChar).length
    let word := slice row (wordStart row column) stop
    .ok (if word.isEmpty then none else some word)

/-- The word at a line and column of a text; a column behind the end of its row is at the
end. -/
def wordAt (cs : List Char) (line column : Int) : Except Fault (Option (List Char)) :=
  let rows := splitRows cs
  if rows.length ≤ line then .ok none
  else
    match pick? rows line with
    | none => .error .noSuchRow
    | some row => wordInRow row (min column row.length)

example : (wordAt "(set my_var 1)".toList 0 5).toOption = some (some "my_var".toList) := by
  decide +kernel
example : (wordAt "ab cd".toList 0 (-2)).toOption = some none := by decide +kernel

end MiniLisp.Document
