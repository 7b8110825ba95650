/-!
# Shortest decimals

A binary floating point number stands for every real number that rounds to it.
Of the decimals in that interval the shortest are the ones with the fewest digits,
and of those the one nearest to the number is chosen; of two equally near ones,
the upper.

The search is exact.  On the grid of the decimals with a given number of digits
only the two neighbours of the number have to be tried, because the interval holds
a point of the grid exactly when it holds one of them.
-/

namespace ClassNames.Decimal

/-- The finite number `significand * 2 ^ exponent`, with what its interval depends
on. -/
structure Binary where
  significand : Nat
  exponent : Int
  /-- The next smaller number is only half as far away as the next greater one. -/
  narrowBelow : Bool
deriving DecidableEq, Repr

/-- The decimal `digits * 10 ^ exponent`. -/
structure Scaled where
  digits : Nat
  exponent : Int
deriving DecidableEq, Repr

/-- A number with the ends of its interval, all in units of `10 ^ exponent`. -/
structure Interval where
  low : Nat
  value : Nat
  high : Nat
  exponent : Int
  /-- The ends themselves round to the number. -/
  closed : Bool
deriving DecidableEq, Repr

/-- In quarters of a unit of the significand the interval reaches two above the
number and two, or one, below.  A quarter is a power of two, and below one it is
written as the same power of five on a decimal scale.  The ends belong to the
interval when the significand is even. -/
def Binary.interval (number : Binary) : Interval :=
  let quarter := number.exponent - 2
  let unit := Nat.pow (if quarter < 0 then 5 else 2) quarter.natAbs
  let center := 4 * number.significand
  { low := (center - if number.narrowBelow then 1 else 2) * unit
    value := center * unit
    high := (center + 2) * unit
    exponent := min quarter 0
    closed := number.significand % 2 == 0 }

/-- The point lies in the interval. -/
def Interval.contains (range : Interval) (point : Nat) : Bool :=
  if range.closed then range.low ≤ point && point ≤ range.high
  else range.low < point && point < range.high

/-- The multiple of `step` in the interval that is nearest to the number. -/
def Interval.nearestMultiple? (range : Interval) (step : Nat) : Option Nat :=
  let below := range.value / step
  let distanceBelow := range.value - below * step
  let distanceAbove := (below + 1) * step - range.value
  match range.contains (below * step), range.contains ((below + 1) * step) with
  | true, true => some (if distanceBelow < distanceAbove then below else below + 1)
  | true, false => some below
  | false, true => some (below + 1)
  | false, false => none

/-- The number of decimal digits. -/
def digitCount (number : Nat) : Nat :=
  (Nat.toDigits 10 number).length

/-- The decimal of an interval on the coarsest grid that has one. -/
def Interval.shortest (range : Interval) : Scaled :=
  let drops := (List.range (digitCount range.value)).reverse
  let onGrid (drop : Nat) : Option Scaled :=
    (range.nearestMultiple? (Nat.pow 10 drop)).map (⟨·, range.exponent + drop⟩)
  (drops.findSome? onGrid).getD ⟨range.value, range.exponent⟩

/-- The shortest decimal that rounds to the number. -/
def Binary.shortest (number : Binary) : Scaled :=
  number.interval.shortest

/-- What a double stands for. -/
inductive Double where
  | nan
  | infinite (negative : Bool)
  | finite (negative : Bool) (magnitude : Binary)
deriving DecidableEq, Repr

/-- The number of bits of the significand that are written. -/
def fractionBits : Nat := 52

/-- The largest exponent field, which infinities and what is no number have. -/
def topExponent : Nat := 2047

/-- Reads the 64 bits of a double: the sign, eleven bits of exponent and 52 bits of
significand, to which numbers above the least exponent add a leading one. -/
def Double.ofBits (bits : Nat) : Double :=
  let negative := (bits >>> 63) % 2 == 1
  let exponent : Nat := (bits >>> fractionBits) % (topExponent + 1)
  let fraction : Nat := bits % (1 <<< fractionBits)
  if exponent = topExponent then
    if fraction = 0 then .infinite negative else .nan
  else if exponent = 0 then .finite negative ⟨fraction, -1074, false⟩
  else
    .finite negative
      ⟨(1 <<< fractionBits) + fraction, (exponent : Int) - 1075, fraction == 0 && exponent > 1⟩

end ClassNames.Decimal
