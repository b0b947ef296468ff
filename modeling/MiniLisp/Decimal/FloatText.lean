import MiniLisp.Decimal.Integer
import MiniLisp.Decimal.Shortest

/-!
# Floats in decimal

A float is written with the fewest digits that read back as it. A `FloatLayout` says where
the exponent notation begins and how infinity and the undefined result are spelled.
-/

namespace MiniLisp.Decimal

open Float.Model

/-- The choices of one way to write floats. -/
structure FloatLayout where
  /-- The powers of ten, those of the first digit, that need no exponent. -/
  positional : Int → Bool
  infinity : String
  notANumber : String

/-- The digits of a positive number, without the zeros at their end, and the power of ten of
the first digit. -/
def Scaled.spread (s : Scaled) : List Char × Int :=
  let ds := Nat.toDigits 10 s.digits
  ((ds.reverse.dropWhile (· == '0')).reverse, s.exponent + ds.length - 1)

/-- The digits `ds` with the point after the digit for the power zero, and at least one digit
on either side of it. -/
def positional (ds : List Char) (power : Int) : List Char :=
  if power < 0 then '0' :: '.' :: List.replicate (-power - 1).toNat '0' ++ ds
  else
    let whole := power.toNat + 1
    if ds.length ≤ whole then ds ++ List.replicate (whole - ds.length) '0' ++ ['.', '0']
    else ds.take whole ++ '.' :: ds.drop whole

/-- The digits `ds` with the point after the first one, and the exponent with its sign and at
least two digits. -/
def withExponent (ds : List Char) (power : Int) : List Char :=
  let magnitude := Nat.toDigits 10 power.natAbs
  ds.take 1 ++ (if ds.length ≤ 1 then [] else '.' :: ds.drop 1)
    ++ ['e', if power < 0 then '-' else '+']
    ++ List.replicate (2 - magnitude.length) '0' ++ magnitude

namespace FloatLayout

/-- The text of a float without its sign. -/
def magnitude (layout : FloatLayout) : UnpackedFloat → List Char
  | .notANumber => layout.notANumber.toList
  | .infinity _ => layout.infinity.toList
  | .zero _ => ['0', '.', '0']
  | .finite _ m e _ =>
    let (ds, power) := (Binary.shortest ⟨m, e⟩).spread
    if layout.positional power then Decimal.positional ds power else withExponent ds power

/-- Whether a float's text begins with a minus sign; a zero keeps its sign. -/
def hasMinus : UnpackedFloat → Bool
  | .notANumber => false
  | .infinity s | .zero s | .finite s _ _ _ => s == .negative

/-- The text of a float. -/
def write (layout : FloatLayout) (x : Float) : String :=
  let u := x.toModel.unpack
  String.ofList (if hasMinus u then '-' :: layout.magnitude u else layout.magnitude u)

end FloatLayout

/-- The float nearest to a number written with an optional sign, digits, a point and further
digits. -/
def readFloat (cs : List Char) : Float :=
  let whole := (unsigned cs).takeWhile (· ≠ '.')
  let fraction := ((unsigned cs).dropWhile (· ≠ '.')).drop 1
  let x := Float.ofScientific (ofDigits (whole ++ fraction)) true fraction.length
  if Decimal.hasMinus cs then -x else x

example : readFloat "-12.".toList = -12.0 := by decide +kernel
example : readFloat "0.30000000000000004".toList = 0.1 + 0.2 := by decide +kernel

end MiniLisp.Decimal
