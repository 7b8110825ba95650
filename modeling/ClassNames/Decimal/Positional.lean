import ClassNames.Decimal.Shortest

/-!
# Numbers in positional notation

A double is written with the digits of its shortest decimal and never with an
exponent.  A whole number has no point, and a fraction has no zeros at its end.
-/

namespace ClassNames.Decimal

/-- The digits without the zeros at the end of a fraction. -/
def dropZerosRight (digits : List Char) : List Char :=
  (digits.reverse.dropWhile (· == '0')).reverse

/-- A point and the fraction, or nothing if the fraction is zero. -/
def fractionText (digits : List Char) : List Char :=
  match dropZerosRight digits with
  | [] => []
  | fraction => '.' :: fraction

/-- The digits of a decimal in their places. -/
def Scaled.text (number : Scaled) : List Char :=
  let digits := Nat.toDigits 10 number.digits
  if 0 ≤ number.exponent then
    digits ++ List.replicate number.exponent.natAbs '0'
  else
    let places := number.exponent.natAbs
    let padded := List.replicate (places + 1 - digits.length) '0' ++ digits
    let whole := padded.length - places
    padded.take whole ++ fractionText (padded.drop whole)

def signText (negative : Bool) : String :=
  if negative then "-" else ""

/-- The text of a double. -/
def Double.text : Double → String
  | .nan => "NaN"
  | .infinite negative => signText negative ++ "inf"
  | .finite negative magnitude =>
    signText negative ++ String.ofList magnitude.shortest.text

/-- The text of a floating point number. -/
def floatText (number : Float) : String :=
  (Double.ofBits number.toBits.toNat).text

end ClassNames.Decimal
