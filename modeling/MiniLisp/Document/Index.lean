import MiniLisp.Document.LineMap
import MiniLisp.Source.Parser
import MiniLisp.Table
import MiniLisp.Value

/-!
# The index of a document

What an editor knows of a text without running it: the names that are set in it, with the
place where each is set first, and the first error of reading. Names are collected token by
token up to the first place where no token begins, so a text that is only half typed has an
index too.
-/

namespace MiniLisp.Document

/-- An error of reading, between two positions. -/
structure Problem where
  message : String
  start : Position
  stop : Position
deriving DecidableEq, Repr

/-- The names set in a document, in the order of the places where they are set first, and the
document's error if it has one. -/
structure Index where
  symbols : Table Position
  problem : Option Problem

/-- Whether three tokens begin a form that sets a name. -/
def setsName (a b c : Token) : Bool :=
  a.kind == .openParen && b.kind == .name && b.content == SpecialForm.set.name.toList
    && c.kind == .name

/-- Adds the names that are set in a run of tokens to those that were set before it. -/
def collect (starts : List Nat) : List Token → Table Position → Table Position
  | a :: b :: c :: rest, found =>
    let name := String.ofList c.content
    let found :=
      if setsName a b c && !found.contains name then
        found.insert name (positionIn starts c.span.start)
      else found
    collect starts (b :: c :: rest) found
  | _, found => found

/-- The names set in a text. -/
def definitions (cs : List Char) : Table Position :=
  collect (lineStarts cs) (Cursor.ofText cs).tokens.1 Table.empty

/-- The error of a text as an editor marks it: over at least one character, unless it is at
the end of the text. -/
def problemOf (cs : List Char) (e : SyntaxError) : Problem :=
  let span := e.span.getD (Span.covering cs.length 0)
  let starts := lineStarts cs
  ⟨e.message, positionIn starts span.start,
    positionIn starts (min (max span.stop (span.start + 1)) cs.length)⟩

variable [Host]

/-- The index of a text. -/
def index (cs : List Char) : Except Fault Index :=
  match parse cs with
  | .ok _ => .ok ⟨definitions cs, none⟩
  | .error (.malformed e) => .ok ⟨definitions cs, some (problemOf cs e)⟩
  | .error (.fault f) => .error f

end MiniLisp.Document
