import MiniLisp.Fault
import MiniLisp.Text.Quoted

/-!
# Operators

Seven characters name the operators: four of arithmetic and three relations.
-/

namespace MiniLisp

/-- The operators of arithmetic. -/
inductive ArithmeticOp where
  | plus | minus | star | slash
deriving DecidableEq, Repr

/-- The relations between two values. -/
inductive RelationalOp where
  | equal | greater | less
deriving DecidableEq, Repr

/-- An operator of either kind. -/
inductive Operator where
  | arithmetic (op : ArithmeticOp)
  | relational (op : RelationalOp)
deriving DecidableEq, Repr

namespace RelationalOp

/-- The relation with its two sides exchanged. -/
def swap : RelationalOp → RelationalOp
  | equal => equal
  | greater => less
  | less => greater

@[simp] theorem swap_swap (op : RelationalOp) : op.swap.swap = op := by cases op <;> rfl

end RelationalOp

namespace Operator

/-- The character that names the operator. -/
def char : Operator → Char
  | .arithmetic .plus => '+'
  | .arithmetic .minus => '-'
  | .arithmetic .star => '*'
  | .arithmetic .slash => '/'
  | .relational .equal => '='
  | .relational .greater => '>'
  | .relational .less => '<'

/-- The operator that a character names. -/
def ofChar? : Char → Option Operator
  | '+' => some (.arithmetic .plus)
  | '-' => some (.arithmetic .minus)
  | '*' => some (.arithmetic .star)
  | '/' => some (.arithmetic .slash)
  | '=' => some (.relational .equal)
  | '>' => some (.relational .greater)
  | '<' => some (.relational .less)
  | _ => none

/-- The text of the operator. -/
def symbol (op : Operator) : String := String.ofList [op.char]

/-- The operator's name in capitals. -/
def label : Operator → String
  | .arithmetic .plus => "PLUS"
  | .arithmetic .minus => "MINUS"
  | .arithmetic .star => "STAR"
  | .arithmetic .slash => "SLASH"
  | .relational .equal => "EQUAL"
  | .relational .greater => "GREATER"
  | .relational .less => "LESS"

/-- Whether the operator computes a value rather than a truth value. -/
def isArithmetic : Operator → Bool
  | .arithmetic _ => true
  | .relational _ => false

/-- The operator whose text is exactly `cs`. -/
def ofText? : List Char → Option Operator
  | [c] => ofChar? c
  | _ => none

/-- The operator whose text is `text`, or the fault that there is none. -/
def ofText (text : String) : Except Fault Operator :=
  match ofText? text.toList with
  | some op => .ok op
  | none => .error (.unknownOperator text)

@[simp] theorem ofChar?_char (op : Operator) : ofChar? op.char = some op := by
  rcases op with op | op <;> cases op <;> rfl

end Operator

end MiniLisp
