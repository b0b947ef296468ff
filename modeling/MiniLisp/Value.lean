import MiniLisp.Operator

/-!
# Values

What evaluating a form produces. Values are never changed once made.
-/

namespace MiniLisp

/-- The functions that are called with evaluated arguments. -/
inductive Native where
  | print | println | input
  /-- A function of another name, which gives its arguments back. -/
  | echo (name : String)
deriving DecidableEq, Repr

/-- The name of a native function. -/
def Native.name : Native → String
  | print => "print"
  | println => "println"
  | input => "input"
  | echo name => name

/-- The forms that decide by themselves which of their arguments are evaluated. -/
inductive SpecialForm where
  | set | list | block | cond | loop
deriving DecidableEq, Repr

namespace SpecialForm

/-- The name of a special form. -/
def name : SpecialForm → String
  | set => "set"
  | list => "list"
  | block => "block"
  | cond => "if"
  | loop => "while"

/-- Every special form, once. -/
def all : List SpecialForm := [set, list, block, cond, loop]

end SpecialForm

/-- A value of the language. -/
inductive Value where
  | int (n : Int)
  | float (x : Float)
  | bool (b : Bool)
  | str (s : String)
  | list (items : List Value)
  | native (fn : Native)
  | special (form : SpecialForm)
  | operator (op : Operator)
  | symbol (name : String)
  /-- The absence of a value. -/
  | null

/-- The kinds of value. -/
inductive ValueKind where
  | int | float | bool | str | list | native | special | operator | symbol | null
deriving DecidableEq, Repr

/-- What messages call a value of the kind. -/
def ValueKind.label : ValueKind → String
  | int => "int"
  | float => "float"
  | bool => "bool"
  | str => "str"
  | list => "list"
  | native => "function"
  | special => "special form"
  | operator => "operator"
  | symbol => "symbol"
  | null => "null"

namespace Value

/-- The two texts of a value. -/
inductive Style where
  | display | inspect
deriving DecidableEq, Repr

/-- The kind of a value. -/
def kind : Value → ValueKind
  | .int _ => .int
  | .float _ => .float
  | .bool _ => .bool
  | .str _ => .str
  | .list _ => .list
  | .native _ => .native
  | .special _ => .special
  | .operator _ => .operator
  | .symbol _ => .symbol
  | .null => .null

mutual

/-- Whether two values are of one kind with the same content. Floats are compared as numbers,
so zero equals its negative and an undefined float equals nothing. -/
def same : Value → Value → Bool
  | .int a, .int b => a == b
  | .float a, .float b => a == b
  | .bool a, .bool b => a == b
  | .str a, .str b => a == b
  | .list as, .list bs => sameEach as bs
  | .native a, .native b => a.name == b.name
  | .special a, .special b => a == b
  | .operator a, .operator b => a == b
  | .symbol a, .symbol b => a == b
  | .null, .null => true
  | _, _ => false

/-- Whether two lists have as many values, and the same ones in the same places. -/
def sameEach : List Value → List Value → Bool
  | [], [] => true
  | a :: as, b :: bs => same a b && sameEach as bs
  | _, _ => false

end

mutual

/-- How many lists a value's innermost part lies in. -/
def depth : Value → Nat
  | .list items => depthEach items + 1
  | _ => 0

/-- The greatest depth of several values. -/
def depthEach : List Value → Nat
  | [] => 0
  | item :: items => max (depth item) (depthEach items)

end

/-- What holds of every value that is no list, and of a list if it holds of the items, holds of
every value. -/
theorem induction_items {motive : Value → Prop}
    (list : ∀ items, (∀ v ∈ items, motive v) → motive (.list items))
    (other : ∀ v, (∀ items, v ≠ .list items) → motive v) : ∀ v, motive v
  | .list items => list items fun v _ => induction_items list other v
  | .int _ | .float _ | .bool _ | .str _ | .native _ | .special _ | .operator _ | .symbol _
  | .null => other _ (by simp)

end Value

end MiniLisp
