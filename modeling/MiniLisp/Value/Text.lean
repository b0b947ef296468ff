import MiniLisp.Decimal.FloatText
import MiniLisp.Host

/-!
# The text of a value

A value has two texts. `display` is for the reader of a program's output; `inspect` shows
results, and tells texts and symbols from other values.
-/

namespace MiniLisp

/-- Floats from a ten-thousandth up to ten quadrillion need no exponent. -/
def valueFloats : Decimal.FloatLayout := ⟨fun k => -4 ≤ k && k < 16, "inf", "nan"⟩

namespace Value

variable [Host]

mutual

/-- The text of a value, written with `room` frames free. -/
def textWithin (style : Style) (room : Nat) (v : Value) : Except Fault String :=
  Host.inside (.text style v.kind) room (.error .nestedTooDeeply) fun room =>
    match v with
    | .int n => integerText n
    | .float x => .ok (valueFloats.write x)
    | .bool b => .ok (if b then "true" else "false")
    | .str s =>
      .ok (match style with
        | .display => s
        | .inspect => String.ofList (Text.literal s.toList))
    | .list items => do
      return "[" ++ ", ".intercalate (← textEachWithin style room items) ++ "]"
    | .native fn => .ok ("<function " ++ fn.name ++ ">")
    | .special form => .ok ("<special form " ++ form.name ++ ">")
    | .operator op => .ok op.symbol
    | .symbol x =>
      .ok (match style with
        | .display => x
        | .inspect => "'" ++ x)
    | .null => .ok "null"

/-- The texts of several values. -/
def textEachWithin (style : Style) (room : Nat) : List Value → Except Fault (List String)
  | [] => .ok []
  | item :: items => do
    let text ← textWithin style room item
    return text :: (← textEachWithin style room items)

end

/-- The text that printing shows. -/
def display (v : Value) : Except Fault String := v.textWithin .display Host.stack

/-- The text that a result is shown with. -/
def inspect (v : Value) : Except Fault String := v.textWithin .inspect Host.stack

/-- The texts that printing several values shows, with a space between any two. -/
def displayAllWithin (room : Nat) (vs : List Value) : Except Fault String := do
  return " ".intercalate (← textEachWithin .display room vs)

end Value

end MiniLisp
