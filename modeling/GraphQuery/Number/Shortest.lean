import GraphQuery.Number.Binary64

/-!
# Shortest decimals

The decimal with the fewest digits that rounds to a given binary64 number, and of several the
one nearest to it. The search walks the decimal grids from coarse to fine and tests the two
points of each grid that enclose the number.
-/

namespace GraphQuery

structure Decimal where
  digits : Nat
  exponent : Int
  deriving DecidableEq, Repr

namespace Decimal

/-- The reals that round to a nonzero magnitude: between `low / den` and `high / den` around
`middle / den`, both ends included if `closed`. -/
structure Interval where
  low : Nat
  middle : Nat
  high : Nat
  den : Nat
  closed : Bool

/-- Below a power of two the spacing halves, so the lower end lies half as far. -/
def Interval.around (x : Binary64) : Interval :=
  let scale := Nat.pow 2 x.exponent.toNat
  let narrow := x.significand == Nat.pow 2 52 && decide (Binary64.minExponent < x.exponent)
  { low := (4 * x.significand - if narrow then 1 else 2) * scale
    middle := 4 * x.significand * scale
    high := (4 * x.significand + 2) * scale
    den := 4 * x.den
    closed := x.significand % 2 == 0 }

def Interval.contains (i : Interval) (num den : Nat) : Bool :=
  let point := num * i.den
  if i.closed then decide (i.low * den ≤ point ∧ point ≤ i.high * den)
  else decide (i.low * den < point ∧ point < i.high * den)

def ratio (digits : Nat) (exponent : Int) : Nat × Nat :=
  (digits * Nat.pow 10 exponent.toNat, Nat.pow 10 (-exponent).toNat)

/-- The point of the grid of multiples of `10 ^ exponent` in the interval that is nearest to its
middle, if there is one. -/
def Interval.onGrid (i : Interval) (exponent : Int) : Option Decimal :=
  let unit := ratio 1 exponent
  let below := i.middle * unit.2 / (i.den * unit.1)
  let rest := i.middle * unit.2 - below * (i.den * unit.1)
  let inside := fun (digits : Nat) => i.contains (ratio digits exponent).1 (ratio digits exponent).2
  match inside below, inside (below + 1) with
  | true, true =>
    if 2 * rest < i.den * unit.1 ∨ (2 * rest = i.den * unit.1 ∧ below % 2 = 0) then
      some ⟨below, exponent⟩
    else some ⟨below + 1, exponent⟩
  | true, false => some ⟨below, exponent⟩
  | false, true => some ⟨below + 1, exponent⟩
  | false, false => none

/-- The first hit on the grids from `10 ^ exponent` down, `steps` of them. -/
def Interval.firstHit (i : Interval) (exponent : Int) : Nat → Option Decimal
  | 0 => none
  | steps + 1 => (i.onGrid exponent).orElse fun _ => i.firstHit (exponent - 1) steps

/-- Trailing zeros of the digits move to the exponent; `steps` bounds their number. -/
def trim (d : Decimal) : Nat → Decimal
  | 0 => d
  | steps + 1 =>
    if d.digits ≠ 0 ∧ d.digits % 10 = 0 then trim ⟨d.digits / 10, d.exponent + 1⟩ steps else d

def length (n : Nat) : Nat := (Nat.toDigits 10 n).length

/-- The shortest decimal that rounds to the magnitude of `x`. Seventeen significant digits
always do, so nineteen grids from one above the leading digit suffice. -/
def shortest (x : Binary64) : Decimal :=
  if x.isZero then ⟨0, 0⟩
  else
    let i := Interval.around x
    let leading : Int := (length i.middle : Int) - length i.den
    ((i.firstHit leading 19).map fun d => d.trim 19).getD ⟨0, 0⟩

end Decimal

end GraphQuery
