import MiniLisp.Node
import MiniLisp.Value

/-!
# Errors of evaluation

Why a form has no value. Errors are of three families, which reports name; what a report says
is a function of the error.
-/

namespace MiniLisp

/-- The families of errors. -/
inductive ErrorFamily where
  /-- A name is used before it is bound. -/
  | name
  /-- A value of the wrong kind is called or computed with. -/
  | type
  /-- The arguments are too few, too many, or outside the domain. -/
  | value
deriving DecidableEq, Repr

/-- The family's name in reports. -/
def ErrorFamily.label : ErrorFamily → String
  | name => "NameError"
  | type => "TypeError"
  | value => "ValueError"

/-- Why a form has no value. -/
inductive EvalError where
  | unbound (name : String)
  | operandKinds (op : Operator) (left right : ValueKind)
  | noOperands
  | notCallable (kind : ValueKind)
  | conditionKind (form : SpecialForm) (found : ValueKind)
  | emptyExpression
  | argumentCount (form : SpecialForm) (found : Nat)
  | setTarget (found : NodeKind)
  | divisionByZero
  /-- An integer beside a float is beyond the floats. -/
  | beyondFloats
  | repetitionTooLarge (count : Int)
  | inputFailed (reason : String)
  | inputEnded
  | nestedTooDeeply
deriving DecidableEq, Repr

namespace EvalError

/-- The family an error belongs to. -/
def family : EvalError → ErrorFamily
  | unbound _ => .name
  | operandKinds .. | noOperands | notCallable _ | conditionKind .. => .type
  | _ => .value

/-- How many arguments a special form takes. -/
def arity : SpecialForm → String
  | .set => "2 arguments"
  | .cond => "2 or 3 arguments"
  | .loop => "at least 1 argument"
  | .list | .block => "any arguments"

/-- What the error's message says; `while` without arguments does not say what it found. -/
def message : EvalError → String
  | unbound name => name ++ " is not defined"
  | operandKinds op left right =>
    "invalid operand types for " ++ op.symbol ++ ": " ++ left.label ++ " and " ++ right.label
  | noOperands => "expected at least 1 argument"
  | notCallable kind => kind.label ++ " is not callable"
  | conditionKind form found =>
    form.name ++ " condition must be a bool, got " ++ found.label
  | emptyExpression => "expression is empty"
  | argumentCount .loop _ => SpecialForm.loop.name ++ " expects " ++ arity .loop
  | argumentCount form found =>
    form.name ++ " expects " ++ arity form ++ ", found " ++ toString found
  | setTarget found => "set first argument must be a name, got " ++ found.label
  | divisionByZero => "division by zero"
  | beyondFloats =>
    "number too large for float arithmetic: int too large to convert to float"
  | repetitionTooLarge count => "repeat count too large: " ++ toString count
  | inputFailed reason => "input failed: " ++ reason
  | inputEnded => "input reached end of stream"
  | nestedTooDeeply => "expression nested too deeply"

/-- The error as it is reported. -/
def report (e : EvalError) : String := e.family.label ++ ": " ++ e.message

end EvalError

/-- Why an evaluation stopped without a value. -/
inductive Halt where
  | error (e : EvalError)
  | fault (f : Fault)
  /-- A loop went through all the rounds it was allowed. -/
  | outOfRounds
deriving DecidableEq, Repr

end MiniLisp
