/-!
# Binary floating point with 53 bits

Coordinates that are plain numbers are folded in binary floating point: 53
significant bits, exponents of the smallest unit from -1074, rounding to the
nearest value and to the even one of two nearest.  All arithmetic here is exact
arithmetic of natural numbers followed by one rounding.
-/

namespace EventScript

/-- A binary floating-point value. -/
inductive Binary64 where
  /-- The value `significand * 2 ^ exponent`, with a sign that also zero has. -/
  | finite (negative : Bool) (significand : Nat) (exponent : Int)
  | infinite (negative : Bool)
  | notANumber
  deriving DecidableEq, Repr

namespace Binary64

/-- The exponent of the smallest unit. -/
def leastExponent : Int :=
  -1074

/-- The largest exponent of a value with 53 bits. -/
def greatestExponent : Int :=
  971

/-- A quotient rounded to the nearest natural number, and to the even one of
two nearest. -/
def roundQuotient (numerator denominator : Nat) : Nat :=
  let quotient := numerator / denominator
  let twice := 2 * (numerator % denominator)
  if twice < denominator then quotient
  else if denominator < twice then quotient + 1
  else quotient + quotient % 2

/-- The quotient of two natural numbers in units of `2 ^ exponent`, as a
fraction. -/
def inUnits (numerator denominator : Nat) (exponent : Int) : Nat × Nat :=
  if 0 ≤ exponent then (numerator, denominator * Nat.pow 2 exponent.toNat)
  else (numerator * Nat.pow 2 (-exponent).toNat, denominator)

/-- The exponent in whose units a positive quotient has 53 bits before the
point, or the least exponent if that is greater. -/
def unitExponent (numerator denominator : Nat) : Int :=
  let estimate : Int := (numerator.log2 : Int) - (denominator.log2 : Int) - 53
  let (scaled, unit) := inUnits numerator denominator estimate
  let exponent := if scaled / unit < Nat.pow 2 53 then estimate else estimate + 1
  max exponent leastExponent

/-- The value nearest to a quotient with a positive denominator. -/
def ofQuotient (negative : Bool) (numerator denominator : Nat) : Binary64 :=
  if numerator = 0 then finite negative 0 leastExponent
  else
    let exponent := unitExponent numerator denominator
    let (scaled, unit) := inUnits numerator denominator exponent
    let rounded := roundQuotient scaled unit
    let (significand, exponent) :=
      if rounded = Nat.pow 2 53 then (Nat.pow 2 52, exponent + 1) else (rounded, exponent)
    if greatestExponent < exponent then infinite negative
    else finite negative significand exponent

/-- The absolute value of `significand * 2 ^ exponent` as a fraction. -/
def toQuotient (significand : Nat) (exponent : Int) : Nat × Nat :=
  if 0 ≤ exponent then (significand * Nat.pow 2 exponent.toNat, 1)
  else (significand, Nat.pow 2 (-exponent).toNat)

/-- The product of a value and a natural number. -/
def scale (value : Binary64) (factor : Nat) : Binary64 :=
  match value with
  | finite negative significand exponent =>
    let (numerator, denominator) := toQuotient significand exponent
    ofQuotient negative (numerator * factor) denominator
  | infinite negative => if factor = 0 then notANumber else infinite negative
  | notANumber => notANumber

@[simp]
theorem ofQuotient_zero (negative : Bool) (denominator : Nat) :
    ofQuotient negative 0 denominator = finite negative 0 leastExponent := by
  simp [ofQuotient]

@[simp]
theorem scale_notANumber (factor : Nat) : notANumber.scale factor = notANumber :=
  rfl

end Binary64

end EventScript
