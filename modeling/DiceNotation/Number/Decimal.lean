import DiceNotation.Number.Double
import DiceNotation.Number.Power
import DiceNotation.Text.Digit

/-!
# Doubles in decimal

A double is written with the fewest decimal digits that are read back as the same double, and of
those the digits nearest to it, the even ones of two equally near (`shortestDigits`). The reals that
are read back as a double form an interval around it, which includes its ends exactly if the
mantissa is even. For one digit, two digits and so on, the two neighbours of the double on the grid
of numbers with so many digits are tested; seventeen digits always suffice.

Where the digits are placed is a matter of layout (`Layout.write`): plainly as long as the decimal
point is not too far away, with an exponent otherwise.
-/

namespace DiceNotation

/-! ## Shortest digits -/

/-- Digits `d` and a position `p` of the decimal point stand for the number whose first digit has
the place value `10 ^ (p - 1)`. -/
structure Decimal where
  /-- The digits as one number, without zeros at the end. -/
  digits : Nat
  /-- How many digits stand before the decimal point; negative if zeros follow it. -/
  point : Int
  deriving DecidableEq

/-- The number of decimal digits of a natural number. -/
def digitCount (n : Nat) : Nat :=
  (Nat.toDigits 10 n).length

/-- The position of the decimal point of `num / den`, a positive fraction. -/
def pointOf (num den : Nat) : Int :=
  if den ≤ num then digitCount (num / den) else 1 - (digitCount ((den - 1) / num) : Int)

/-- An interval of fractions with a common denominator. -/
structure RoundingInterval where
  low : Nat
  value : Nat
  high : Nat
  den : Nat
  /-- Whether the ends belong to the interval. -/
  closed : Bool
  deriving DecidableEq

/-- The numbers that round to the double `m * 2 ^ e`. Below a power of two the doubles are twice as
dense as above it. -/
def RoundingInterval.ofDouble (m : Nat) (e : Int) : RoundingInterval :=
  let below := if m = Double.leadingBit ∧ Double.minExponent < e then 1 else 2
  let unit := 1 <<< (e - 2).toNat
  { low := (4 * m - below) * unit
    value := 4 * m * unit
    high := (4 * m + 2) * unit
    den := 1 <<< (2 - e).toNat
    closed := m % 2 == 0 }

/-- Whether `num / (den of the interval)` lies in the interval. -/
def RoundingInterval.contains (interval : RoundingInterval) (num scale : Nat) : Bool :=
  if interval.closed then decide (interval.low * scale ≤ num) && decide (num ≤ interval.high * scale)
  else decide (interval.low * scale < num) && decide (num < interval.high * scale)

/-- The number of `count` digits that is nearest to the value of the interval, if one of the two
next to it lies in the interval; of two equally near the even one. -/
def RoundingInterval.nearest? (interval : RoundingInterval) (point : Int) (count : Nat) :
    Option Nat :=
  let grid := point - count
  let step := interval.den * natPow 10 grid.toNat
  let scale := natPow 10 (-grid).toNat
  let lower := interval.value * scale / step
  let rest := interval.value * scale % step
  match interval.contains (lower * step) scale, interval.contains ((lower + 1) * step) scale with
  | false, false => none
  | true, false => some lower
  | false, true => some (lower + 1)
  | true, true =>
    if 2 * rest < step || (2 * rest == step && lower % 2 == 0) then some lower
    else some (lower + 1)

/-- A number without the zeros at its end, at most `limit` of them. -/
def trimZeros (n : Nat) : Nat → Nat
  | 0 => n
  | limit + 1 => if n % 10 = 0 then trimZeros (n / 10) limit else n

/-- The digits of a number whose last one has the place value `10 ^ grid`. -/
def Decimal.ofGrid (n : Nat) (grid : Int) : Decimal :=
  { digits := trimZeros n (digitCount n - 1), point := grid + digitCount n }

/-- The fewest digits that are read back as the double `m * 2 ^ e`, which is not zero. -/
def shortestDigits (m : Nat) (e : Int) : Decimal :=
  let interval := RoundingInterval.ofDouble m e
  let point := pointOf interval.value interval.den
  match (List.range' 1 17).findSome? fun count =>
      (interval.nearest? point count).map fun n => Decimal.ofGrid n (point - count) with
  | some decimal => decimal
  | none => Decimal.ofGrid 0 0

/-! ## Layout -/

/-- How the digits of a number are laid out. -/
structure Layout where
  /-- The least position of the decimal point that is written plainly. -/
  leastPoint : Int
  /-- The greatest position of the decimal point that is written plainly. -/
  greatestPoint : Int
  /-- Whether a whole number that is written plainly is given one zero after the point. -/
  keepsPoint : Bool
  deriving DecidableEq

/-- A real result: plain from `0.0001` to below `10 ^ 16`, and always with a point. -/
def realLayout : Layout := ⟨-3, 16, true⟩

/-- A part of a complex number: as a real result, but a whole number has no point. -/
def partLayout : Layout := ⟨-3, 16, false⟩

/-- The exponent of a number, with its sign and at least two digits. -/
def exponentText (n : Int) : Text :=
  let digits := decimalText n.natAbs
  (if n < 0 then '-' else '+') :: (if digits.length < 2 then '0' :: digits else digits)

/-- The digits of a number, laid out. -/
def Layout.place (layout : Layout) (decimal : Decimal) : Text :=
  let digits := decimalText decimal.digits
  let point := decimal.point
  if point < layout.leastPoint || layout.greatestPoint < point then
    let fraction := digits.drop 1
    digits.take 1 ++ (if fraction.isEmpty then [] else '.' :: fraction) ++
      'e' :: exponentText (point - 1)
  else if point ≤ 0 then '0' :: '.' :: (List.replicate (-point).toNat '0' ++ digits)
  else if point < digits.length then
    digits.take point.toNat ++ '.' :: digits.drop point.toNat
  else
    digits ++ List.replicate (point.toNat - digits.length) '0' ++
      (if layout.keepsPoint then ['.', '0'] else [])

/-- The text of a double without its sign. -/
def Layout.magnitude (layout : Layout) : Double → Text
  | .nan => ['n', 'a', 'n']
  | .infinite _ => ['i', 'n', 'f']
  | .finite _ 0 _ => if layout.keepsPoint then ['0', '.', '0'] else ['0']
  | .finite _ (m + 1) e => layout.place (shortestDigits (m + 1) e)

/-- The text of a double, after a minus sign if it carries one. -/
def Layout.write (layout : Layout) (x : Double) : Text :=
  (if x.signBit then ['-'] else []) ++ layout.magnitude x

/-! ## Reading -/

/-- The double nearest to `digits * 10 ^ exponent`. Numbers far beyond the largest double or far
below the least are not computed. -/
def Double.ofDecimal (negative : Bool) (digits : Nat) (exponent : Int) : Double :=
  if digits = 0 then signedZero negative
  else if 400 < exponent then .infinite negative
  else if exponent + digitCount digits < -400 then signedZero negative
  else ofRatio negative (digits * natPow 10 exponent.toNat) (natPow 10 (-exponent).toNat)

end DiceNotation
