import MiniLisp.Value.Arithmetic

/-!
# Relations between values

Numbers are related by their exact values; texts and lists can be equal or not. As in
arithmetic, `related?` is what the left value knows, and `compare` asks the left one first,
then the right one with the relation turned round.
-/

namespace MiniLisp

namespace Value

/-- What the left of two numbers knows of the relation. -/
def numbersRelated? (op : RelationalOp) (left right : Value) : Option Bool :=
  if left.knows right then
    match left.number?, right.number? with
    | some a, some b => some (a.holds op b)
    | _, _ => none
  else none

section

variable [Host]

mutual

/-- Whether two values are equal, compared with `room` frames free; values that neither side knows
to compare are not. -/
def equalWithin (room : Nat) (a b : Value) : Except Fault Bool :=
  Host.inside (.equal a.kind b.kind) room (.error .nestedTooDeeply) fun room =>
    match a, b with
    | .str a, .str b => .ok (a == b)
    | .list as, .list bs =>
      if as.length = bs.length then equalEachWithin room as bs else .ok false
    | a, b => .ok (((numbersRelated? .equal a b).or (numbersRelated? .equal b a)).getD false)

/-- Whether two lists have equal values in the same places, up to the end of the shorter. -/
def equalEachWithin (room : Nat) : List Value → List Value → Except Fault Bool
  | a :: as, b :: bs => do
    if ← equalWithin room a b then equalEachWithin room as bs else return false
  | _, _ => .ok true

end

/-- Whether two values are equal. -/
def equals (a b : Value) : Except Fault Bool := equalWithin Host.stack a b

/-- What the left value knows of the relation, with `room` frames free. -/
def relatedWithin? (room : Nat) (op : RelationalOp) (left right : Value) :
    Option (Except Fault Bool) :=
  match op, left, right with
  | .equal, .str _, .str _ | .equal, .list _, .list _ => some (equalWithin room left right)
  | _, _, _ => (numbersRelated? op left right).map .ok

/-- What the left value knows of the relation. -/
def related? (op : RelationalOp) (left right : Value) : Option (Except Fault Bool) :=
  relatedWithin? Host.stack op left right

/-- Whether two values are in the relation, with `room` frames free. -/
def compareWithin (room : Nat) (op : RelationalOp) (left right : Value) : Except Halt Bool :=
  match relatedWithin? room op left right with
  | some result => result.mapError .fault
  | none =>
    match relatedWithin? room op.swap right left with
    | some result => result.mapError .fault
    | none => .error (.error (.operandKinds (.relational op) left.kind right.kind))

/-- Whether two values are in the relation. -/
def compare (op : RelationalOp) (left right : Value) : Except Halt Bool :=
  compareWithin Host.stack op left right

/-! ## Several operands -/

/-- Whether the relation holds between every two neighbours; all are compared before the
answer is given. -/
def compareNeighbours (room : Nat) (op : RelationalOp) (operands : List Value) :
    Except Halt Bool := do
  let results ← (operands.zip operands.tail).mapM fun (left, right) =>
    compareWithin room op left right
  return results.all id

/-- An operator applied to its operands, with `room` frames free: arithmetic from left to right,
relations between neighbours. -/
def applyOperatorWithin (room : Nat) (op : Operator) (operands : List Value) : Except Halt Value :=
  Host.inside (.apply op operands) room (.error (.fault .nestedTooDeeply)) fun room =>
    match op, operands with
    | .relational op, operands => .bool <$> compareNeighbours room op operands
    | .arithmetic _, [] => .error (.error .noOperands)
    | .arithmetic op, first :: others => others.foldlM (compute op) first

/-- An operator applied to its operands. -/
def applyOperator (op : Operator) (operands : List Value) : Except Halt Value :=
  applyOperatorWithin Host.stack op operands

end

/-- The one value that several results amount to. -/
def collapse : List Value → Value
  | [] => .null
  | [result] => result
  | results => .list results

end Value

end MiniLisp
