/-!
# Double precision numbers

A double is an infinity, the value that is no number, or a signed dyadic fraction
`mantissa * 2 ^ exponent` with a mantissa below `2 ^ 53` and an exponent from `-1074` to `971`.
Arithmetic is done exactly on fractions of natural numbers and rounded once at the end: `ofRatio`
gives the double nearest to a fraction, the one with the even mantissa of two equally near, and an
infinity beyond the largest double. Every operation is thus correctly rounded by construction.

The elementary functions are the machine's own, reached through core's `Float` (`viaFloat`).
-/

namespace DiceNotation

/-- A number of double precision. -/
inductive Double
  /-- The result of an operation without a result. -/
  | nan
  | infinite (negative : Bool)
  /-- The fraction `mantissa * 2 ^ exponent`, with its sign, which zero has too. -/
  | finite (negative : Bool) (mantissa : Nat) (exponent : Int)
  deriving DecidableEq

namespace Double

/-- The least exponent of a double. -/
def minExponent : Int := -1074

/-- The greatest exponent of a double. -/
def maxExponent : Int := 971

/-- The least mantissa of a double that is written with its greatest precision, `2 ^ 52`. -/
def leadingBit : Nat := 1 <<< 52

/-! ## Rounding -/

/-- The greatest `k` with `2 ^ k ≤ num / den`, for positive `num` and `den`. -/
def floorLog2 (num den : Nat) : Int :=
  let guess : Int := (num.log2 : Int) - den.log2
  if num <<< (-guess).toNat < den <<< guess.toNat then guess - 1 else guess

/-- The natural number nearest to `num / den`, the even one of two equally near. -/
def roundHalfEven (num den : Nat) : Nat :=
  let floor := num / den
  let rest := num % den
  if 2 * rest < den || (2 * rest == den && floor % 2 == 0) then floor else floor + 1

/-- Zero with a sign. -/
def signedZero (negative : Bool) : Double :=
  .finite negative 0 minExponent

/-- The exponent with which a double near `num / den` is written. -/
def roundingExponent (num den : Nat) : Int :=
  max minExponent (floorLog2 num den - 52)

/-- The double nearest to `num / den`, with a sign; the denominator is positive. -/
def ofRatio (negative : Bool) (num den : Nat) : Double :=
  if num = 0 then signedZero negative
  else
    let e := roundingExponent num den
    let m := roundHalfEven (num <<< (-e).toNat) (den <<< e.toNat)
    -- rounding up can reach the next power of two
    let (m, e) := if m = 2 * leadingBit then (leadingBit, e + 1) else (m, e)
    if maxExponent < e then .infinite negative else .finite negative m e

/-- The double nearest to `m * 2 ^ e`, with a sign. -/
def ofScaled (negative : Bool) (m : Nat) (e : Int) : Double :=
  ofRatio negative (m <<< e.toNat) (1 <<< (-e).toNat)

/-- The double nearest to an integer, an infinity if there is none. -/
def ofInt (n : Int) : Double :=
  ofRatio (decide (n < 0)) n.natAbs 1

/-- The double nearest to the quotient of two integers, of which the second is not zero. A zero
quotient has the sign of the divisor. -/
def ofQuotient (a b : Int) : Double :=
  ofRatio (decide (a < 0) != decide (b < 0)) a.natAbs b.natAbs

/-! ## Classification -/

/-- Whether the value is a number, and not an infinite one. -/
def isFinite : Double → Bool
  | .finite .. => true
  | _ => false

/-- Whether the value is an infinity. -/
def isInfinite : Double → Bool
  | .infinite _ => true
  | _ => false

/-- Whether the value is zero, of either sign. -/
def isZero : Double → Bool
  | .finite _ 0 _ => true
  | _ => false

/-- Whether the value carries a minus sign, as negative zero does. -/
def signBit : Double → Bool
  | .nan => false
  | .infinite negative => negative
  | .finite negative _ _ => negative

/-- The numerator of `mantissa * 2 ^ exponent` over the denominator `2 ^ -scale`, for a scale that
is at most the exponent. -/
def numerator (negative : Bool) (m : Nat) (e scale : Int) : Int :=
  let n : Int := (m <<< (e - scale).toNat : Nat)
  if negative then -n else n

/-- Whether the first value lies below the second; no value stands in any order to `nan`. -/
def lt : Double → Double → Bool
  | .nan, _ | _, .nan => false
  | .infinite s, .infinite t => s && !t
  | .infinite s, .finite .. => s
  | .finite .., .infinite t => !t
  | .finite s m e, .finite t n f =>
    let scale := min e f
    decide (numerator s m e scale < numerator t n f scale)

/-- Whether the value lies below zero. -/
def isNegative (x : Double) : Bool :=
  x.signBit && !x.isZero

/-- The integer that the value is, if it is one. -/
def toInt? : Double → Option Int
  | .finite negative m e =>
    let divisor := 1 <<< (-e).toNat
    if m % divisor = 0 then
      let n : Int := ((m / divisor) <<< e.toNat : Nat)
      some (if negative then -n else n)
    else none
  | _ => none

/-! ## Arithmetic -/

/-- The value with the opposite sign. -/
def neg : Double → Double
  | .nan => .nan
  | .infinite negative => .infinite !negative
  | .finite negative m e => .finite (!negative) m e

/-- The value without its sign. -/
def abs : Double → Double
  | .nan => .nan
  | .infinite _ => .infinite false
  | .finite _ m e => .finite false m e

/-- The rounded sum. A sum of zero is negative only if both operands are. -/
def add : Double → Double → Double
  | .nan, _ | _, .nan => .nan
  | .infinite s, .infinite t => if s = t then .infinite s else .nan
  | .infinite s, .finite .. => .infinite s
  | .finite .., .infinite t => .infinite t
  | .finite s m e, .finite t n f =>
    let scale := min e f
    let sum := numerator s m e scale + numerator t n f scale
    if sum = 0 then signedZero (s && t) else ofScaled (decide (sum < 0)) sum.natAbs scale

/-- The rounded difference. -/
def sub (x y : Double) : Double :=
  x.add y.neg

/-- The rounded product. -/
def mul : Double → Double → Double
  | .nan, _ | _, .nan => .nan
  | .infinite s, .infinite t => .infinite (s != t)
  | .infinite s, .finite t n _ => if n = 0 then .nan else .infinite (s != t)
  | .finite s m _, .infinite t => if m = 0 then .nan else .infinite (s != t)
  | .finite s m e, .finite t n f => ofScaled (s != t) (m * n) (e + f)

/-- The rounded quotient. Division by zero gives an infinity, except of zero. -/
def div : Double → Double → Double
  | .nan, _ | _, .nan => .nan
  | .infinite _, .infinite _ => .nan
  | .infinite s, .finite t _ _ => .infinite (s != t)
  | .finite s _ _, .infinite t => signedZero (s != t)
  | .finite s m e, .finite t n f =>
    if n = 0 then (if m = 0 then .nan else .infinite (s != t))
    else ofRatio (s != t) (m <<< (e - f).toNat) (n <<< (f - e).toNat)

/-- The exact remainder of truncated division, which has the sign of the dividend. -/
def truncatedRem : Double → Double → Double
  | .nan, _ | _, .nan => .nan
  | .infinite _, _ => .nan
  | .finite s m e, .infinite _ => .finite s m e
  | .finite s m e, .finite _ n f =>
    if n = 0 then .nan
    else
      let scale := min e f
      let dividend := m <<< (e - scale).toNat
      let divisor := n <<< (f - scale).toNat
      ofScaled s (dividend % divisor) scale

/-- The remainder that has the sign of the divisor. -/
def floorRem (x y : Double) : Double :=
  let rest := x.truncatedRem y
  if rest.isZero then signedZero y.signBit
  else if y.isNegative != rest.isNegative then rest.add y
  else rest

/-- The greatest whole number that is not above the value. -/
def floor : Double → Double
  | .finite negative m e =>
    let n := (numerator negative m e (min e 0)).fdiv (1 <<< (-e).toNat : Nat)
    if n = 0 then signedZero negative else ofInt n
  | x => x

/-- The whole part of a quotient, corrected for the rounding of the division. -/
def floorDiv (x y : Double) : Double :=
  let rest := x.truncatedRem y
  let quotient := (x.sub rest).div y
  -- the remainder of truncation gives a quotient that is one too great where the signs differ
  let quotient :=
    if !rest.isZero && y.isNegative != rest.isNegative then quotient.sub (ofInt 1) else quotient
  if quotient.isZero then signedZero (x.div y).signBit
  else
    -- the division may have rounded to just below the whole quotient
    let whole := quotient.floor
    if (ofQuotient 1 2).lt (quotient.sub whole) then whole.add (ofInt 1) else whole

/-! ## The machine's functions -/

/-- The bit pattern of a double in the interchange format. -/
def toBits : Double → UInt64
  | .nan => 0x7ff8000000000000
  | .infinite negative => if negative then 0xfff0000000000000 else 0x7ff0000000000000
  | .finite negative m e =>
    UInt64.ofNat ((if negative then 1 <<< 63 else 0) + (e - minExponent).toNat <<< 52 + m)

/-- The double with a bit pattern of the interchange format. -/
def ofBits (bits : UInt64) : Double :=
  let n := bits.toNat
  let negative := decide (1 <<< 63 ≤ n)
  let biased : Nat := (n >>> 52) % 2048
  let fraction : Nat := n % leadingBit
  if biased = 2047 then (if fraction = 0 then .infinite negative else .nan)
  else if biased = 0 then .finite negative fraction minExponent
  else .finite negative (leadingBit + fraction) ((biased : Int) - 1075)

/-- A function of the machine's floating-point unit, on doubles. -/
def viaFloat (f : Float → Float) (x : Double) : Double :=
  ofBits (f (Float.ofBits x.toBits)).toBits

/-- A function of two arguments of the machine's floating-point unit, on doubles. -/
def viaFloat₂ (f : Float → Float → Float) (x y : Double) : Double :=
  ofBits (f (Float.ofBits x.toBits) (Float.ofBits y.toBits)).toBits

end Double

end DiceNotation
