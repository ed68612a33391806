import EventScript.Decimal.Binary64

/-!
# The shortest decimal text of a value

A value is written with the fewest digits that read back to it and, of the
decimals with that many digits, the nearest to it.  The search compares
candidates with the exact ends of the interval of numbers that round to the
value.
-/

namespace EventScript.Decimal

/-- The numbers that round to a value, and the value itself, as fractions with
one denominator. -/
structure Interval where
  low : Nat
  value : Nat
  high : Nat
  denominator : Nat
  /-- Whether the two ends belong to the interval. -/
  closed : Bool

/-- The interval of a positive value.  Below a power of two the neighbours are
half as far apart.  The ends round to the even neighbour. -/
def interval (significand : Nat) (exponent : Int) : Interval :=
  let quarter := exponent - 2
  let (unit, denominator) := Binary64.toQuotient 1 quarter
  let below := if significand = Nat.pow 2 52 then 1 else 2
  { low := (4 * significand - below) * unit
    value := 4 * significand * unit
    high := (4 * significand + 2) * unit
    denominator := denominator
    closed := significand % 2 == 0 }

/-- Whether `digits * 10 ^ exponent` lies in an interval. -/
def Interval.contains (range : Interval) (digits : Nat) (exponent : Int) : Bool :=
  let scaled := digits * Nat.pow 10 exponent.toNat * range.denominator
  let unit := Nat.pow 10 (-exponent).toNat
  if range.closed then range.low * unit ≤ scaled && scaled ≤ range.high * unit
  else range.low * unit < scaled && scaled < range.high * unit

/-- The number of decimal places that a fraction below one has in front of its
first significant digit, counting that digit. -/
def leadingPlaces (numerator denominator : Nat) : Nat :=
  ((List.range 400).find? fun places => denominator ≤ numerator * Nat.pow 10 places).getD 0

/-- The power of ten of the leading digit of a positive fraction. -/
def magnitude (numerator denominator : Nat) : Int :=
  if denominator ≤ numerator then
    ((Nat.toDigits 10 (numerator / denominator)).length : Int) - 1
  else -(leadingPlaces numerator denominator : Int)

/-- The multiple of `10 ^ exponent` in the interval that is nearest to the
value, as the number of units.  Of two that are equally near the greater one is
taken. -/
def nearestUnits (range : Interval) (exponent : Int) : Option Nat :=
  let numerator := range.value * Nat.pow 10 (-exponent).toNat
  let denominator := range.denominator * Nat.pow 10 exponent.toNat
  let below := numerator / denominator
  let above := below + 1
  let lowFits := range.contains below exponent
  let highFits := range.contains above exponent
  if highFits && (!lowFits || denominator ≤ 2 * (numerator % denominator)) then some above
  else if lowFits then some below
  else none

/-- The digits and the power of ten of the exact decimal of a value. -/
def exact (significand : Nat) (exponent : Int) : Nat × Int :=
  if 0 ≤ exponent then (significand * Nat.pow 2 exponent.toNat, 0)
  else (significand * Nat.pow 5 (-exponent).toNat, exponent)

/-- The digits and the power of ten of the shortest decimal of a positive
value, which has at most 17 digits. -/
def shortest (significand : Nat) (exponent : Int) : Nat × Int :=
  let range := interval significand exponent
  let leading := magnitude range.value range.denominator
  let found := (List.range 17).findSome? fun (more : Nat) =>
    let unit := leading - (more : Int)
    (nearestUnits range unit).map fun digits => (digits, unit)
  found.getD (exact significand exponent)

/-- Drop the zeros behind the last other digit. -/
def dropTrailingZeros (digits : List Char) : List Char :=
  (digits.reverse.dropWhile (· == '0')).reverse

/-- Write digits times a power of ten without an exponent. -/
def positional (digits : Nat) (exponent : Int) : List Char :=
  let written := Nat.toDigits 10 digits
  if 0 ≤ exponent then written ++ List.replicate exponent.toNat '0'
  else
    let places := (-exponent).toNat
    let padded := List.replicate (places + 1 - written.length) '0' ++ written
    let whole := padded.take (padded.length - places)
    let fraction := dropTrailingZeros (padded.drop (padded.length - places))
    if fraction.isEmpty then whole else whole ++ '.' :: fraction

end EventScript.Decimal

namespace EventScript.Binary64

/-- Whether a finite value is a whole number below `10 ^ 15`. -/
def isShortWhole (significand : Nat) (exponent : Int) : Bool :=
  let (numerator, denominator) := toQuotient significand exponent
  numerator % denominator == 0 && numerator / denominator < Nat.pow 10 15

/-- The decimal text of a value: whole numbers as such and without the sign of
a zero, other values with the fewest digits that read back, never with an
exponent. -/
def text : Binary64 → String
  | finite negative significand exponent =>
    let (numerator, denominator) := toQuotient significand exponent
    let digits :=
      if isShortWhole significand exponent then Nat.toDigits 10 (numerator / denominator)
      else
        let (digits, power) := Decimal.shortest significand exponent
        Decimal.positional digits power
    let sign := if negative && significand != 0 then ['-'] else []
    String.ofList (sign ++ digits)
  | infinite negative => if negative then "-inf" else "inf"
  | notANumber => "NaN"

end EventScript.Binary64
