/-!
# The shortest decimal of a float

A finite float stands for every real number that rounds to it. `shortest` finds the decimal
with the fewest digits among those, and of several with that many digits the one nearest to
the float.

All of it is exact arithmetic: a float is `m · 2 ^ e`, and the reals that round to it reach
half way to its two neighbours, the ends included when `m` is even.
-/

namespace MiniLisp.Decimal

/-- The decimal number `digits · 10 ^ exponent`. -/
structure Scaled where
  digits : Nat
  exponent : Int
deriving DecidableEq, Repr

/-- A positive float `m · 2 ^ e`, with the exact comparisons that its decimals need. -/
structure Binary where
  m : Nat
  e : Int
deriving DecidableEq, Repr

namespace Binary

/-- `c · 10 ^ p` in the unit that `quarters` uses for the same `p`. -/
def decimal (b : Binary) (p : Int) (c : Nat) : Nat :=
  c * Nat.pow 10 p.toNat * Nat.pow 2 (2 - b.e).toNat

/-- `q` quarters of `2 ^ e` in the unit that `decimal` uses for the same `p`. -/
def quarters (b : Binary) (p : Int) (q : Nat) : Nat :=
  q * Nat.pow 2 (b.e - 2).toNat * Nat.pow 10 (-p).toNat

/-- How far below the float, in quarters of `2 ^ e`, the reals that round to it begin: half
of the gap to the float below, which is narrower when `m` is the least of its exponent. -/
def reachBelow (b : Binary) : Nat := if b.m = Nat.pow 2 52 ∧ -1074 < b.e then 1 else 2

/-- Whether `c · 10 ^ p` rounds to the float. -/
def roundsHere (b : Binary) (p : Int) (c : Nat) : Bool :=
  let low := b.quarters p (4 * b.m - b.reachBelow)
  let high := b.quarters p (4 * b.m + 2)
  let x := b.decimal p c
  if b.m % 2 = 0 then low ≤ x && x ≤ high else low < x && x < high

/-- The greatest power of ten that is not above the float: an estimate from the power of two,
which is either right or one too small. -/
def powerOfTen (b : Binary) : Int :=
  let low := ((b.m.log2 + b.e) * 30103).fdiv 100000
  if b.decimal (low + 1) 1 ≤ b.quarters (low + 1) (4 * b.m) then low + 1 else low

/-- The float's neighbours on the grid of multiples of `10 ^ p`, from below and above. -/
def floorAt (b : Binary) (p : Int) : Nat := b.quarters p (4 * b.m) / b.decimal p 1

/-- The point of the grid of multiples of `10 ^ p` that stands for the float, if one rounds
to it: the nearer of its two neighbours, and the even one of two that are equally near. -/
def onGrid? (b : Binary) (p : Int) : Option Nat :=
  let below := b.floorAt p
  let x := b.quarters p (4 * b.m)
  let down := x - b.decimal p below
  let up := b.decimal p (below + 1) - x
  match b.roundsHere p below, b.roundsHere p (below + 1) with
  | true, true => some (if down < up ∨ (down = up ∧ below % 2 = 0) then below else below + 1)
  | true, false => some below
  | false, true => some (below + 1)
  | false, false => none

/-- The first of the grids `p, p - 1, …` with a point that rounds to the float; seventeen
digits always have one. -/
def search (b : Binary) : Nat → Int → Scaled
  | 0, p => ⟨b.floorAt p, p⟩
  | grids + 1, p =>
    match b.onGrid? p with
    | some c => ⟨c, p⟩
    | none => search b grids (p - 1)

/-- The decimal with the fewest digits that rounds to the float. -/
def shortest (b : Binary) : Scaled := b.search 17 b.powerOfTen

end Binary

example : Binary.shortest ⟨1, -1074⟩ = ⟨5, -324⟩ := by decide +kernel
example : Binary.shortest ⟨2 ^ 53 - 1, 971⟩ = ⟨17976931348623157, 292⟩ := by decide +kernel
example : Binary.shortest ⟨7205759403792794, -56⟩ = ⟨1, -1⟩ := by decide +kernel

end MiniLisp.Decimal
