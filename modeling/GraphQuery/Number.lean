import GraphQuery.Number.Shortest

/-!
# Numbers

A number is an integer or a binary64 number, and the two never are the same. Written numbers
follow the JSON grammar; this module reads them, prints them and converts between them.
-/

namespace GraphQuery

inductive Number where
  | int (n : Int)
  | float (x : Binary64)
  deriving DecidableEq, Repr

/-- A written number: sign, integer digits, fraction digits and exponent. -/
structure Numeral where
  negative : Bool
  whole : List Char
  fraction : Option (List Char)
  exponent : Option (Bool × List Char)

namespace Numeral

def valueOf (digits : List Char) : Nat :=
  digits.foldl (fun n c => 10 * n + (c.toNat - '0'.toNat)) 0

/-- Digits up to the first that no longer fits into 64 bits, and how many are left over. -/
def keep (significand : Nat) : List Char → Nat × Nat
  | [] => (significand, 0)
  | c :: rest =>
    let next := 10 * significand + (c.toNat - '0'.toNat)
    if next < 0x10000000000000000 then keep next rest else (significand, rest.length + 1)

/-- The digits kept of the whole numeral and the power of ten that places them. -/
def scaled (n : Numeral) : Nat × Int :=
  let (whole, dropped) := keep 0 n.whole
  let fraction := n.fraction.getD []
  let (significand, ignored) := keep whole fraction
  let written : Int := match n.exponent with
    | none => 0
    | some (true, digits) => -(valueOf digits : Int)
    | some (false, digits) => valueOf digits
  (significand, dropped - (fraction.length - ignored : Nat) + written)

def scanDigits (cs : List Char) : List Char × List Char :=
  (cs.takeWhile Char.isDigit, cs.dropWhile Char.isDigit)

/-- `0`, or digits that start with another one. -/
def scanWhole (cs : List Char) : Option (List Char × List Char) :=
  match cs with
  | '0' :: rest => some (['0'], rest)
  | c :: _ => if c.isDigit then some (scanDigits cs) else none
  | [] => none

/-- A point and at least one digit, or nothing. -/
def scanFraction (cs : List Char) : Option (List Char) × List Char :=
  match cs with
  | '.' :: rest =>
    match scanDigits rest with
    | ([], _) => (none, cs)
    | (digits, rest) => (some digits, rest)
  | _ => (none, cs)

/-- The letter `e`, an optional sign and at least one digit, or nothing. -/
def scanExponent (cs : List Char) : Option (Bool × List Char) × List Char :=
  let signed := fun (negative : Bool) (rest : List Char) =>
    match scanDigits rest with
    | ([], _) => (none, cs)
    | (digits, rest) => (some (negative, digits), rest)
  match cs with
  | c :: rest =>
    if c = 'e' ∨ c = 'E' then
      match rest with
      | '-' :: rest => signed true rest
      | '+' :: rest => signed false rest
      | rest => signed false rest
    else (none, cs)
  | [] => (none, cs)

def scan (cs : List Char) : Option (Numeral × List Char) := do
  let (negative, rest) := match cs with
    | '-' :: rest => (true, rest)
    | rest => (false, rest)
  let (whole, rest) ← scanWhole rest
  let (fraction, rest) := scanFraction rest
  let (exponent, rest) := scanExponent rest
  pure (⟨negative, whole, fraction, exponent⟩, rest)

end Numeral

namespace Number

/-- The number that a numeral writes: an integer if it has neither fraction nor exponent and fits
into 64 bits, signed or unsigned, else a float. `-0` is the negative zero. A magnitude beyond the
finite range has no value. -/
def ofNumeral? (n : Numeral) : Option Number :=
  let float := do
    let (significand, exponent) := n.scaled
    let x ← Binary64.ofScaled significand exponent
    pure (.float (if n.negative then x.neg else x))
  match n.fraction, n.exponent with
  | none, none =>
    let value := Numeral.valueOf n.whole
    if n.negative then
      if value = 0 ∨ 0x8000000000000000 < value then float else some (.int (-value))
    else if value < 0x10000000000000000 then some (.int value) else float
  | _, _ => float

def zeros (n : Nat) : String := String.ofList (List.replicate n '0')

/-- Positional text with at least one decimal from `0.00001` up to below `10 ^ 16`, otherwise one
digit before the point and an exponent with its sign. -/
def decimalText (d : Decimal) : String :=
  let digits := Nat.toDigits 10 d.digits
  let leading := d.exponent + digits.length - 1
  if d.digits = 0 then "0.0"
  else if -5 ≤ leading ∧ leading < 16 then
    if 0 ≤ d.exponent then String.ofList digits ++ zeros d.exponent.toNat ++ ".0"
    else if 0 ≤ leading then
      String.ofList (digits.take (leading.toNat + 1)) ++ "."
        ++ String.ofList (digits.drop (leading.toNat + 1))
    else "0." ++ zeros (-leading - 1).toNat ++ String.ofList digits
  else
    let fraction := match digits.drop 1 with
      | [] => ""
      | rest => "." ++ String.ofList rest
    let sign := if leading < 0 then "-" else "+"
    String.ofList (digits.take 1) ++ fraction ++ "e" ++ sign ++ toString leading.natAbs

def floatText (x : Binary64) : String :=
  (if x.negative then "-" else "") ++ decimalText (Decimal.shortest x)

def text : Number → String
  | .int n => toString n
  | .float x => floatText x

def toFloat : Number → Binary64
  | .int n => .ofInt n
  | .float x => x

/-- Numeric equality within a kind; an integer never equals a float. -/
def same : Number → Number → Bool
  | .int m, .int n => m == n
  | .float x, .float y => x.sameNumber y
  | _, _ => false

def toInt32? : Number → Option Int
  | .int n => if -0x80000000 ≤ n ∧ n < 0x80000000 then some n else none
  | .float _ => none

end Number

end GraphQuery
