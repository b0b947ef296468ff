import MiniLisp.Host
import MiniLisp.Value.Number

/-!
# Arithmetic on values

Each operation has two halves. `primary?` is the half that the left operand knows, and
`reflected?` the half that the right one knows; `compute` asks the left operand first.
-/

namespace MiniLisp

/-! ## Repetition -/

/-- The least and greatest counts that a repetition takes: those that 64 bits hold. -/
def countRange : Int × Int := (-9223372036854775808, 9223372036854775807)

variable [Host]

/-- How often a text or list of a size is repeated: never if it is empty or the count is not
positive, and not at all if the host cannot build the result. -/
def repetitions (v : Value) (size : Nat) (count : Int) : Except Halt Nat :=
  if count < countRange.1 ∨ countRange.2 < count ∨ Host.builds v (size * count.toNat) = false then
    if (Decimal.writeInt? count).isSome then .error (.error (.repetitionTooLarge count))
    else .error (.fault .numberTooLong)
  else .ok (if size = 0 then 0 else count.toNat)

namespace Value

/-- A text or list repeated, if the first value is one and the second a count. -/
def repeat? : Value → Value → Option (Except Halt Value)
  | .str s, .int n =>
    some ((repetitions (.str s) s.length n).map fun k => .str (String.join (List.replicate k s)))
  | .list items, .int n =>
    some ((repetitions (.list items) items.length n).map fun k =>
      .list (List.replicate k items).flatten)
  | _, _ => none

/-! ## Numbers -/

/-- Whether the left value knows numbers like the right one: floats know integers, and truth
values know both. -/
def knows : Value → Value → Bool
  | .int _, .int _ => true
  | .float _, .int _ | .float _, .float _ => true
  | .bool _, .bool _ | .bool _, .int _ | .bool _, .float _ => true
  | _, _ => false

/-- The operation on two numbers, from left to right. -/
def numeric? (op : ArithmeticOp) (left right : Value) : Option (Except Halt Value) :=
  match left.number?, right.number? with
  | some a, some b => some ((a.apply op b).mapError .error)
  | _, _ => none

/-! ## The two halves -/

/-- What the left operand makes of the operation. -/
def primary? (op : ArithmeticOp) (left right : Value) : Option (Except Halt Value) :=
  match op, left, right with
  | .plus, .str a, .str b => some (.ok (.str (a ++ b)))
  | .plus, .list as, .list bs => some (.ok (.list (as ++ bs)))
  | .star, .str _, .int _ | .star, .list _, .int _ => repeat? left right
  | _, _, _ => if left.knows right then numeric? op left right else none

/-- What the right operand makes of the operation: it knows a left one of another kind. -/
def reflected? (op : ArithmeticOp) (right left : Value) : Option (Except Halt Value) :=
  match op, right, left with
  | .star, .str _, .int _ | .star, .list _, .int _ => repeat? right left
  | _, .float _, .int _ | _, .bool _, .int _ | _, .bool _, .float _ => numeric? op left right
  | _, _, _ => none

/-- The result of an operation on two values. -/
def compute (op : ArithmeticOp) (left right : Value) : Except Halt Value :=
  match primary? op left right with
  | some result => result
  | none =>
    match reflected? op right left with
    | some result => result
    | none => .error (.error (.operandKinds (.arithmetic op) left.kind right.kind))

end Value

end MiniLisp
