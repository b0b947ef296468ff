import MiniLisp.EvalError

/-!
# Numbers

Integers of any size and floats. They are compared by their exact values, without converting
one to the other; arithmetic of an integer and a float converts the integer.
-/

namespace MiniLisp

open Float.Model

/-- A number. -/
inductive Number where
  | int (n : Int)
  | float (x : Float)

/-- A place on the line of all numbers: finite ones in units of the least positive float. -/
inductive Magnitude where
  | below
  | finite (units : Int)
  | above
deriving DecidableEq, Repr

namespace Magnitude

/-- Whether one place lies before another. -/
def lt : Magnitude → Magnitude → Bool
  | .below, .below => false
  | .below, _ => true
  | .finite a, .finite b => a < b
  | .finite _, .above => true
  | _, _ => false

/-- Whether two places are in the relation. -/
def holds (op : RelationalOp) (a b : Magnitude) : Bool :=
  match op with
  | .equal => a == b
  | .greater => b.lt a
  | .less => a.lt b

end Magnitude

namespace Number

/-- The exact value of a float, unless it is undefined. -/
def floatMagnitude? : UnpackedFloat → Option Magnitude
  | .notANumber => none
  | .infinity s => some (if s == .negative then .below else .above)
  | .zero _ => some (.finite 0)
  | .finite s m e _ =>
    let units := m * Nat.pow 2 (e + 1074).toNat
    some (.finite (if s == .negative then -(units : Int) else units))

/-- The exact value of a number, unless it is undefined. -/
def magnitude? : Number → Option Magnitude
  | .int n => some (.finite (n * Nat.pow 2 1074))
  | .float x => floatMagnitude? x.toModel.unpack

/-- Whether two numbers are in the relation; an undefined one is in none. -/
def holds (op : RelationalOp) (a b : Number) : Bool :=
  match a.magnitude?, b.magnitude? with
  | some x, some y => x.holds op y
  | _, _ => false

/-- Whether a number is zero. -/
def isZero (a : Number) : Bool := a.magnitude? == some (.finite 0)

/-- The nearest float, the even one of two that are equally near, unless the number is beyond
the floats. -/
def toFloat? : Number → Option Float
  | .int n => if (Float.ofInt n).isInf then none else some (Float.ofInt n)
  | .float x => some x

/-- The quotient and product, sum or difference of two integers. -/
def applyInt (op : ArithmeticOp) (a b : Int) : Int :=
  match op with
  | .plus => a + b
  | .minus => a - b
  | .star => a * b
  | .slash => a.tdiv b

/-- The result of an operation on two floats. -/
def applyFloat (op : ArithmeticOp) (a b : Float) : Float :=
  match op with
  | .plus => a + b
  | .minus => a - b
  | .star => a * b
  | .slash => a / b

/-- The result of an operation on two numbers: an integer, division cut toward zero, unless
one of them is a float. -/
def apply (op : ArithmeticOp) (a b : Number) : Except EvalError Value :=
  if op = .slash && b.isZero then .error .divisionByZero
  else
    match a, b with
    | .int m, .int n => .ok (.int (applyInt op m n))
    | _, _ =>
      match a.toFloat?, b.toFloat? with
      | some x, some y => .ok (.float (applyFloat op x y))
      | _, _ => .error .beyondFloats

example : holds .less (.int (2 ^ 53 + 1)) (.float 9007199254740994.0) = true := by decide +kernel
example : holds .equal (.float (0.0 / 0.0)) (.float (0.0 / 0.0)) = false := by decide +kernel
example : (toFloat? (.int (10 ^ 400))).isNone = true := by decide +kernel

end Number

/-- The number that a value is; truth values count as one and zero. -/
def Value.number? : Value → Option Number
  | .int n => some (.int n)
  | .float x => some (.float x)
  | .bool b => some (.int b.toInt)
  | _ => none

end MiniLisp
