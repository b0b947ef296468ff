import MiniLisp.Decimal.Integer
import MiniLisp.Text.Quoted

/-!
# Faults

The failures that belong to none of the language's own error families: a limit of the machine
is reached, an input stream breaks, or a definition is called with an argument outside its
domain. No program of the language can catch or report one.
-/

namespace MiniLisp

/-- Why a run was cut short from outside the language. -/
inductive Fault where
  | invalidSpan (start stop : Int)
  | unknownOperator (text : String)
  | unknownTokenKind (text : String)
  /-- An integer literal with more digits than are read. -/
  | literalTooLong (digits : Nat)
  /-- An integer with more digits than are written. -/
  | numberTooLong
  /-- Something that is no form of the language stood where a form is needed. -/
  | foreignItem (text : String)
  /-- A row was asked for by an offset before the first one. -/
  | noSuchRow
  /-- A column was asked for by an offset before the first one of its row. -/
  | noSuchColumn
  | nestedTooDeeply
  | readFailed (reason : String)
  | interrupted
  | undecodableText
deriving DecidableEq, Repr

/-- What is said of the limit on the digits of an integer; `found` tells of the number at
hand. -/
def digitLimitMessage (found : String) : String :=
  "Exceeds the limit (" ++ toString Decimal.digitLimit ++ " digits) for integer string conversion"
    ++ found ++ "; use sys.set_int_max_str_digits() to increase the limit"

/-- What is said of a fault, if anything is. -/
def Fault.message? : Fault → Option String
  | invalidSpan start stop => some ("invalid span " ++ toString start ++ ".." ++ toString stop)
  | unknownOperator text => some (Text.quoted text.toList ++ " is not a valid Op")
  | unknownTokenKind text => some (Text.quoted text.toList ++ " is not a valid TokenKind")
  | literalTooLong digits =>
    some (digitLimitMessage (": value has " ++ toString digits ++ " digits"))
  | numberTooLong => some (digitLimitMessage "")
  | foreignItem text => some ("not an AST node: " ++ Text.quoted text.toList)
  | noSuchRow => some "list index out of range"
  | noSuchColumn => some "string index out of range"
  | readFailed reason => some reason
  | nestedTooDeeply | interrupted | undecodableText => none

/-- The decimal text of an integer, or the fault that it is too long to have one. -/
def integerText (n : Int) : Except Fault String :=
  match Decimal.writeInt? n with
  | some text => .ok text
  | none => .error .numberTooLong

end MiniLisp
