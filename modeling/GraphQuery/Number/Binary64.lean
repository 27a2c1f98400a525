/-!
# Finite binary64 numbers

A finite number is a sign, a significand and a power of two. Arithmetic is exact on natural
numbers and rounded once, to the nearest number with ties to the even significand. A result
beyond the largest finite number is `none`.
-/

namespace GraphQuery

/-- The number `± significand * 2 ^ exponent`. The operations below return the form with
`significand < 2 ^ 53` and the least exponent from `-1074` on that allows it. -/
structure Binary64 where
  negative : Bool
  significand : Nat
  exponent : Int
  deriving DecidableEq, Repr

namespace Binary64

/-- The least exponent, at which zero and the subnormal numbers stand. -/
def minExponent : Int := -1074

def maxExponent : Int := 971

def roundDiv (num den : Nat) : Nat :=
  let down := num / den
  let twice := 2 * (num % den)
  if twice < den then down
  else if den < twice then down + 1
  else if down % 2 = 0 then down else down + 1

/-- The exponent at which `num / den` has 53 significant bits, or the least exponent. -/
def exponentFor (num den : Nat) : Int :=
  let low := max ((num.log2 : Int) - den.log2 - 53) minExponent
  let reach := low + 53
  if den * Nat.pow 2 reach.toNat ≤ num * Nat.pow 2 (-reach).toNat then low + 1 else low

def ofRatio (negative : Bool) (num den : Nat) : Option Binary64 :=
  if num = 0 then some ⟨negative, 0, minExponent⟩
  else
    let exponent := exponentFor num den
    let significand :=
      roundDiv (num * Nat.pow 2 (-exponent).toNat) (den * Nat.pow 2 exponent.toNat)
    let (significand, exponent) :=
      if significand = Nat.pow 2 53 then (Nat.pow 2 52, exponent + 1) else (significand, exponent)
    if maxExponent < exponent then none else some ⟨negative, significand, exponent⟩

def num (x : Binary64) : Nat := x.significand * Nat.pow 2 x.exponent.toNat

def den (x : Binary64) : Nat := Nat.pow 2 (-x.exponent).toNat

def zero : Binary64 := ⟨false, 0, minExponent⟩

def isZero (x : Binary64) : Bool := x.significand == 0

def neg (x : Binary64) : Binary64 := { x with negative := !x.negative }

/-- The nearest number to an integer; beyond the finite range there is none. -/
def ofInt? (n : Int) : Option Binary64 := ofRatio (decide (n < 0)) n.natAbs 1

/-- The nearest number to an integer of at most 64 bits. -/
def ofInt (n : Int) : Binary64 := (ofInt? n).getD zero

def mul (x y : Binary64) : Option Binary64 :=
  ofRatio (x.negative != y.negative) (x.num * y.num) (x.den * y.den)

/-- The rounded quotient; `y` is not zero. -/
def div (x y : Binary64) : Option Binary64 :=
  ofRatio (x.negative != y.negative) (x.num * y.den) (x.den * y.num)

/-- The nearest number to `10 ^ k`; `k` is at most 308. -/
def pow10 (k : Nat) : Binary64 := (ofRatio false (Nat.pow 10 k) 1).getD zero

def sameNumber (x y : Binary64) : Bool :=
  x == y || (x.isZero && y.isZero)

/-- `significand * 10 ^ exponent` with one rounding for the significand and one for each power
of ten, the largest of which is `10 ^ 308`. -/
def ofScaled (significand : Nat) (exponent : Int) : Option Binary64 :=
  let whole := ofInt significand
  if whole.isZero then some whole
  else if 308 < exponent then none
  else if 0 ≤ exponent then whole.mul (pow10 exponent.toNat)
  else if -308 ≤ exponent then whole.div (pow10 (-exponent).toNat)
  else if -616 ≤ exponent then do
    (← whole.div (pow10 308)).div (pow10 (-exponent - 308).toNat)
  else some zero

end Binary64

end GraphQuery
