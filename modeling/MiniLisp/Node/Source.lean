import MiniLisp.Decimal.FloatText
import MiniLisp.Host

/-!
# The text of a node

`Node.source` writes a node in the one normal spelling of its form. The reader has no
exponents, so floats are written without one.
-/

namespace MiniLisp

/-- Floats of a program's text need no exponent at any size. -/
def sourceFloats : Decimal.FloatLayout := ⟨fun _ => true, "Infinity.0", "NaN.0"⟩

namespace Node

variable [Host]

mutual

/-- The text of a node, written with `room` frames free. -/
def sourceWithin (room : Nat) (node : Node) : Except Fault String :=
  Host.inside (.source node.kind) room (.error .nestedTooDeeply) fun room =>
    match node with
    | .int n => integerText n
    | .float x => .ok (sourceFloats.write x)
    | .name x => .ok x
    | .str s => .ok ("\"" ++ s ++ "\"")
    | .symbol x => .ok ("'" ++ x)
    | .operator op => .ok op.symbol
    | .expr items => do
      return "(" ++ " ".intercalate (← sourceEachWithin room items) ++ ")"
    | .list items => do
      return "'(" ++ " ".intercalate (← sourceEachWithin room items) ++ ")"
    | .foreign text => .error (.foreignItem text)

/-- The texts of several nodes. -/
def sourceEachWithin (room : Nat) : List Node → Except Fault (List String)
  | [] => .ok []
  | node :: nodes => do
    let text ← sourceWithin room node
    return text :: (← sourceEachWithin room nodes)

end

/-- The text of a node. -/
def source (node : Node) : Except Fault String := node.sourceWithin Host.stack

/-- The text of several nodes, one space between any two. -/
def sourceAll (nodes : List Node) : Except Fault String := do
  return " ".intercalate (← nodes.mapM source)

end Node

end MiniLisp
