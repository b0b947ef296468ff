import MiniLisp.Operator

/-!
# Nodes

A node is one form of a program, as the reader builds it and the evaluator walks it.
-/

namespace MiniLisp

/-- A form of the language. -/
inductive Node where
  | int (value : Int)
  | float (value : Float)
  | name (name : String)
  | str (value : String)
  /-- A quoted name. -/
  | symbol (name : String)
  | operator (op : Operator)
  /-- A parenthesised expression: a head and its arguments. -/
  | expr (items : List Node)
  /-- A quoted list. -/
  | list (items : List Node)
  /-- Something that is no form. The reader builds none; whoever walks one stops there. -/
  | foreign (text : String)

/-- The kinds of node. -/
inductive NodeKind where
  | int | float | name | str | symbol | operator | expr | list | foreign
deriving DecidableEq, Repr

namespace NodeKind

/-- What messages call a node of the kind. -/
def label : NodeKind → String
  | int => "IntNode"
  | float => "FloatNode"
  | name => "NameNode"
  | str => "StrNode"
  | symbol => "SymbolNode"
  | operator => "OperatorNode"
  | expr => "ExprNode"
  | list => "ListNode"
  | foreign => "str"

end NodeKind

namespace Node

/-- The kind of a node. -/
def kind : Node → NodeKind
  | .int _ => .int
  | .float _ => .float
  | .name _ => .name
  | .str _ => .str
  | .symbol _ => .symbol
  | .operator _ => .operator
  | .expr _ => .expr
  | .list _ => .list
  | .foreign _ => .foreign

mutual

/-- Whether two nodes are of one kind with the same content. Floats are compared as numbers,
so zero equals its negative and an undefined float equals nothing. -/
def same : Node → Node → Bool
  | .int a, .int b => a == b
  | .float a, .float b => a == b
  | .name a, .name b => a == b
  | .str a, .str b => a == b
  | .symbol a, .symbol b => a == b
  | .operator a, .operator b => a == b
  | .expr as, .expr bs => sameEach as bs
  | .list as, .list bs => sameEach as bs
  | .foreign a, .foreign b => a == b
  | _, _ => false

/-- Whether two lists have as many nodes, and the same ones in the same places. -/
def sameEach : List Node → List Node → Bool
  | [], [] => true
  | a :: as, b :: bs => same a b && sameEach as bs
  | _, _ => false

end

mutual

/-- How many lists and expressions a node's innermost part lies in. -/
def depth : Node → Nat
  | .expr items | .list items => depthEach items + 1
  | _ => 0

/-- The greatest depth of several nodes. -/
def depthEach : List Node → Nat
  | [] => 0
  | node :: nodes => max (depth node) (depthEach nodes)

end

/-- The node `inner` wrapped `n` times as the argument of `head`. -/
def wrap (head : Node) : Nat → Node → Node
  | 0, inner => inner
  | n + 1, inner => wrap head n (.expr [head, inner])

end Node

end MiniLisp
