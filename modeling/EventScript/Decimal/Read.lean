import EventScript.Decimal.Binary64

/-!
# Reading decimal numbers

A number is an optional sign and either digits with an optional point and an
optional exponent, or one of the words for the infinite values and for no
number.  Its value is the floating-point value nearest to the decimal.
-/

namespace EventScript.Decimal

/-- The value of decimal digits. -/
def ofDigits (digits : List Char) : Nat :=
  digits.foldl (fun value digit => 10 * value + (digit.toNat - '0'.toNat)) 0

/-- The nearest value to `digits * 10 ^ exponent`.  Beyond the range of the
floating-point values the power of ten is not computed. -/
def nearest (negative : Bool) (digits : Nat) (exponent : Int) : Binary64 :=
  if digits = 0 then .finite negative 0 Binary64.leastExponent
  else
    let size : Int := ((Nat.toDigits 10 digits).length : Int) + exponent
    if 310 < size then .infinite negative
    else if size < -330 then .finite negative 0 Binary64.leastExponent
    else if 0 ≤ exponent then .ofQuotient negative (digits * Nat.pow 10 exponent.toNat) 1
    else .ofQuotient negative digits (Nat.pow 10 (-exponent).toNat)

/-- Split a sign off the front; whether it is a minus sign. -/
def splitSign : List Char → Bool × List Char
  | '-' :: rest => (true, rest)
  | '+' :: rest => (false, rest)
  | text => (false, text)

/-- Read what may stand behind the digits: nothing, or the mark of an exponent
and a whole number. -/
def readExponent : List Char → Option Int
  | [] => some 0
  | mark :: rest =>
    if mark == 'e' || mark == 'E' then
      let (negative, digits) := splitSign rest
      if digits.isEmpty || !digits.all Char.isDigit then none
      else if negative then some (-(ofDigits digits : Int))
      else some (ofDigits digits)
    else none

/-- Read digits with an optional point and an optional exponent. -/
def readPlain (negative : Bool) (text : List Char) : Option Binary64 :=
  let whole := text.takeWhile Char.isDigit
  let behind := text.dropWhile Char.isDigit
  let (fraction, behind) :=
    match behind with
    | '.' :: rest => (rest.takeWhile Char.isDigit, rest.dropWhile Char.isDigit)
    | rest => ([], rest)
  if whole.isEmpty && fraction.isEmpty then none
  else
    (readExponent behind).map fun exponent =>
      nearest negative (ofDigits (whole ++ fraction)) (exponent - (fraction.length : Int))

/-- Read a number. -/
def read? (text : String) : Option Binary64 :=
  let (negative, rest) := splitSign text.toList
  match String.ofList (rest.map Char.toLower) with
  | "inf" => some (.infinite negative)
  | "infinity" => some (.infinite negative)
  | "nan" => some .notANumber
  | _ => readPlain negative rest

end EventScript.Decimal
