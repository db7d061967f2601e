import DiceNotation.Number.Decimal
import DiceNotation.Number.Root

/-!
# Complex numbers

Complex numbers arise only from raising a negative number to a fractional power. Their product,
quotient and powers are computed from doubles in a fixed order, so that results agree to the last
bit. A power with a whole exponent of at most one hundred is found by repeated squaring, any other
in polar form.
-/

namespace DiceNotation

/-- A complex number with parts of double precision. -/
structure Complex where
  re : Double
  im : Double
  deriving DecidableEq

namespace Complex

/-- The number one. -/
def one : Complex := ⟨Double.ofInt 1, Double.ofInt 0⟩

/-- A real number as a complex one. -/
def ofReal (x : Double) : Complex := ⟨x, Double.ofInt 0⟩

/-- Whether both parts are zero. -/
def isZero (z : Complex) : Bool :=
  z.re.isZero && z.im.isZero

/-- Whether a part is infinite. -/
def hasInfinitePart (z : Complex) : Bool :=
  z.re.isInfinite || z.im.isInfinite

/-- The number with the opposite sign. -/
def neg (z : Complex) : Complex := ⟨z.re.neg, z.im.neg⟩

/-- The sum. -/
def add (z w : Complex) : Complex := ⟨z.re.add w.re, z.im.add w.im⟩

/-- The difference. -/
def sub (z w : Complex) : Complex := ⟨z.re.sub w.re, z.im.sub w.im⟩

/-- The product. -/
def mul (z w : Complex) : Complex :=
  ⟨(z.re.mul w.re).sub (z.im.mul w.im), (z.re.mul w.im).add (z.im.mul w.re)⟩

/-- The quotient, unless the divisor is zero. The greater part of the divisor is divided out first,
which keeps the intermediate results in range. -/
def div? (z w : Complex) : Option Complex :=
  let re := w.re.abs
  let im := w.im.abs
  if re = .nan ∨ im = .nan then some ⟨.nan, .nan⟩
  else if re.lt im then
    let ratio := w.re.div w.im
    let scale := (w.re.mul ratio).add w.im
    some ⟨((z.re.mul ratio).add z.im).div scale, ((z.im.mul ratio).sub z.re).div scale⟩
  else if re.isZero then none
  else
    let ratio := w.im.div w.re
    let scale := w.re.add (w.im.mul ratio)
    some ⟨(z.re.add (z.im.mul ratio)).div scale, (z.im.sub (z.re.mul ratio)).div scale⟩

/-- The distance from zero. -/
def abs (z : Complex) : Double :=
  z.re.hypot z.im

/-- Multiplies `product` by the powers of `square` that make up the exponent `n`, from the least
binary digit on. -/
def powBits (product square : Complex) (n : Nat) : Complex :=
  if n = 0 then product
  else powBits (if n % 2 = 1 then product.mul square else product) (square.mul square) (n / 2)
termination_by n

/-- A power with a natural exponent. -/
def powNat (z : Complex) (n : Nat) : Complex :=
  powBits one z n

/-- A power with a whole exponent, unless a division by zero is needed. -/
def powInt? (z : Complex) (n : Int) : Option Complex :=
  if 0 < n then some (z.powNat n.toNat) else one.div? (z.powNat (-n).toNat)

/-- A power in polar form, unless it is a power of zero that does not exist. -/
def powPolar? (z w : Complex) : Option Complex :=
  if w.isZero then some one
  else if z.isZero then
    if !w.im.isZero || w.re.isNegative then none else some ⟨Double.ofInt 0, Double.ofInt 0⟩
  else
    let length := z.abs
    let angle := Double.viaFloat₂ Float.atan2 z.im z.re
    let scale := Double.viaFloat₂ Float.pow length w.re
    let turn := angle.mul w.re
    let (scale, turn) :=
      if w.im.isZero then (scale, turn)
      else
        (scale.div (Double.viaFloat Float.exp (angle.mul w.im)),
          turn.add (w.im.mul (Double.viaFloat Float.log length)))
    some ⟨scale.mul (Double.viaFloat Float.cos turn), scale.mul (Double.viaFloat Float.sin turn)⟩

/-- The greatest whole exponent for which a power is found by repeated squaring. -/
def maxSquaring : Nat := 100

/-- A power, unless it is a power of zero that does not exist. -/
def pow? (z w : Complex) : Option Complex :=
  match w.im.isZero, w.re.toInt? with
  | true, some n => if n.natAbs ≤ maxSquaring then z.powInt? n else z.powPolar? w
  | _, _ => z.powPolar? w

/-- The number as text: both parts in parentheses, or the imaginary part alone if the real part is
positive zero. -/
def text (z : Complex) : Text :=
  if z.re.isZero && !z.re.signBit then partLayout.write z.im ++ ['j']
  else
    '(' :: partLayout.write z.re ++ (if z.im.signBit then [] else ['+']) ++
      partLayout.write z.im ++ ['j', ')']

end Complex

end DiceNotation
