import DiceNotation.Evaluator
import DiceNotation.Number.Complex

/-!
# Quantities

The arithmetic of formulas works on quantities: integers, which are exact, doubles and complex
numbers. An operation on quantities of two kinds first brings them to the wider kind. Division
always leaves the integers, every other operation on integers stays in them as long as it can.

An operation either yields a quantity, fails for a reason that is reported to the user
(`ArithmeticError`), or breaks down in a way that is not reported (`Breakdown`).
-/

namespace DiceNotation

/-- A number inside a formula. -/
inductive Quantity
  | int (n : Int)
  | real (x : Double)
  | complex (z : Complex)
  deriving DecidableEq

/-- Why an operation on quantities has no result. -/
inductive ArithmeticError
  | integerDivisionByZero
  | integerFloorDivisionByZero
  | integerRemainderByZero
  | realDivisionByZero
  | realFloorDivisionByZero
  | realRemainderByZero
  | complexDivisionByZero
  | zeroToNegativePower
  | zeroToComplexPower
  /-- The quotient of two integers is beyond the largest double. -/
  | quotientTooLarge
  /-- An integer that has to become a double is beyond the largest one. -/
  | integerTooLarge
  | realPowerTooLarge
  | complexPowerTooLarge
  | complexSizeTooLarge
  /-- A power that is not worth computing. -/
  | refusedPower (base exponent : Quantity)
  deriving DecidableEq

/-- How an operation on quantities can break down without a report. -/
inductive Breakdown
  /-- The operation is not defined for complex numbers. -/
  | unsupportedOperands
  /-- An integer in a report has too many digits to be written. -/
  | unprintable
  deriving DecidableEq

/-- Why an evaluation ends without a result. -/
inductive Failure (ε : Type)
  /-- For a reason that is reported. -/
  | reported (error : ε)
  /-- By breaking down. -/
  | broken (breakdown : Breakdown)
  deriving DecidableEq

namespace Quantity

/-- The number as text. -/
def text : Quantity → Text
  | .int n => integerText n
  | .real x => realLayout.write x
  | .complex z => z.text

/-- Whether the number can be written in a report. -/
def isPrintable : Quantity → Bool
  | .int n => decide (n.natAbs < printableLimit)
  | _ => true

end Quantity

/-- The wording of the reason. -/
def ArithmeticError.message : ArithmeticError → String
  | .integerDivisionByZero => "division by zero"
  | .integerFloorDivisionByZero => "integer division or modulo by zero"
  | .integerRemainderByZero => "integer modulo by zero"
  | .realDivisionByZero => "float division by zero"
  | .realFloorDivisionByZero => "float floor division by zero"
  | .realRemainderByZero => "float modulo"
  | .complexDivisionByZero => "complex division by zero"
  | .zeroToNegativePower => "0.0 cannot be raised to a negative power"
  | .zeroToComplexPower => "0.0 to a negative or complex power"
  | .quotientTooLarge => "integer division result too large for a float"
  | .integerTooLarge => "int too large to convert to float"
  | .realPowerTooLarge => "(34, 'Numerical result out of range')"
  | .complexPowerTooLarge => "complex exponentiation"
  | .complexSizeTooLarge => "absolute value too large"
  | .refusedPower base exponent => refusedPowerWording base.text exponent.text

/-- The outcome of an operation on quantities. -/
abbrev Arithmetic (α : Type) := Except (Failure ArithmeticError) α

/-- Ends an operation for a reason that is reported. -/
def Arithmetic.fail {α : Type} (error : ArithmeticError) : Arithmetic α :=
  .error (.reported error)

/-- Ends an operation by breaking down. -/
def Arithmetic.break {α : Type} (breakdown : Breakdown) : Arithmetic α :=
  .error (.broken breakdown)

namespace Quantity

/-! ## Conversion -/

/-- An integer as a double, if there is one near it. -/
def doubleOfInt (n : Int) : Arithmetic Double :=
  let x := Double.ofInt n
  if x.isFinite then .ok x else .fail .integerTooLarge

/-- A number as a complex one. -/
def toComplex : Quantity → Arithmetic Complex
  | .int n => (doubleOfInt n).map Complex.ofReal
  | .real x => .ok (Complex.ofReal x)
  | .complex z => .ok z

/-- Two numbers of one kind. -/
inductive Pair
  | ints (a b : Int)
  | reals (x y : Double)
  | complexes (z w : Complex)
  deriving DecidableEq

/-- Brings two numbers to the wider of their kinds. -/
def pair : Quantity → Quantity → Arithmetic Pair
  | .int a, .int b => .ok (.ints a b)
  | .int a, .real y => (doubleOfInt a).map fun x => .reals x y
  | .real x, .int b => (doubleOfInt b).map fun y => .reals x y
  | .real x, .real y => .ok (.reals x y)
  | a, b =>
    match a.toComplex, b.toComplex with
    | .ok z, .ok w => .ok (.complexes z w)
    | .error e, _ => .error e
    | _, .error e => .error e

/-- Whether the number is of the complex kind. -/
def isComplex : Quantity → Bool
  | .complex _ => true
  | _ => false

/-! ## Operations -/

/-- The number with the opposite sign. -/
def neg : Quantity → Quantity
  | .int n => .int (-n)
  | .real x => .real x.neg
  | .complex z => .complex z.neg

/-- The sum. -/
def add (a b : Quantity) : Arithmetic Quantity :=
  match pair a b with
  | .error e => .error e
  | .ok (.ints a b) => .ok (.int (a + b))
  | .ok (.reals x y) => .ok (.real (x.add y))
  | .ok (.complexes z w) => .ok (.complex (z.add w))

/-- The difference. -/
def sub (a b : Quantity) : Arithmetic Quantity :=
  match pair a b with
  | .error e => .error e
  | .ok (.ints a b) => .ok (.int (a - b))
  | .ok (.reals x y) => .ok (.real (x.sub y))
  | .ok (.complexes z w) => .ok (.complex (z.sub w))

/-- The product. -/
def mul (a b : Quantity) : Arithmetic Quantity :=
  match pair a b with
  | .error e => .error e
  | .ok (.ints a b) => .ok (.int (a * b))
  | .ok (.reals x y) => .ok (.real (x.mul y))
  | .ok (.complexes z w) => .ok (.complex (z.mul w))

/-- The quotient of two integers, as the nearest double. -/
def divInts (a b : Int) : Arithmetic Quantity :=
  if b = 0 then .fail .integerDivisionByZero
  else
    let x := Double.ofQuotient a b
    if x.isFinite then .ok (.real x) else .fail .quotientTooLarge

/-- The quotient, which is never an integer. -/
def div (a b : Quantity) : Arithmetic Quantity :=
  match pair a b with
  | .error e => .error e
  | .ok (.ints a b) => divInts a b
  | .ok (.reals x y) => if y.isZero then .fail .realDivisionByZero else .ok (.real (x.div y))
  | .ok (.complexes z w) =>
    match z.div? w with
    | some quotient => .ok (.complex quotient)
    | none => .fail .complexDivisionByZero

/-- The remainder that has the sign of the divisor. Complex numbers have none. -/
def rem (a b : Quantity) : Arithmetic Quantity :=
  if a.isComplex || b.isComplex then .break .unsupportedOperands
  else
    match pair a b with
    | .error e => .error e
    | .ok (.ints a b) => if b = 0 then .fail .integerRemainderByZero else .ok (.int (a.fmod b))
    | .ok (.reals x y) => if y.isZero then .fail .realRemainderByZero else .ok (.real (x.floorRem y))
    | .ok (.complexes _ _) => .break .unsupportedOperands

/-- The quotient without its fraction, rounded down. Complex numbers have none. -/
def floorDiv (a b : Quantity) : Arithmetic Quantity :=
  if a.isComplex || b.isComplex then .break .unsupportedOperands
  else
    match pair a b with
    | .error e => .error e
    | .ok (.ints a b) => if b = 0 then .fail .integerFloorDivisionByZero else .ok (.int (a.fdiv b))
    | .ok (.reals x y) =>
      if y.isZero then .fail .realFloorDivisionByZero else .ok (.real (x.floorDiv y))
    | .ok (.complexes _ _) => .break .unsupportedOperands

/-! ## Powers -/

/-- Whether a number is larger than an operand of a power may be. -/
def exceedsPowerLimit : Quantity → Arithmetic Bool
  | .int n => .ok (decide (powerLimit < n.natAbs))
  | .real x => .ok ((Double.ofInt powerLimit).lt x.abs)
  | .complex z =>
    let size := z.abs
    if size.isInfinite && !z.hasInfinitePart then .fail .complexSizeTooLarge
    else .ok ((Double.ofInt powerLimit).lt size)

/-- The power of two complex numbers. -/
def powComplex (z w : Complex) : Arithmetic Quantity :=
  match z.pow? w with
  | none => .fail .zeroToComplexPower
  | some power => if power.hasInfinitePart then .fail .complexPowerTooLarge else .ok (.complex power)

/-- Whether a double is an odd whole number. -/
def isOddWhole (x : Double) : Bool :=
  match x.toInt? with
  | some n => n % 2 != 0
  | none => false

/-- The power of a positive double by the machine's function. -/
def powPositive (negative : Bool) (x y : Double) : Arithmetic Quantity :=
  let power := Double.viaFloat₂ Float.pow x y
  if power.isInfinite then .fail .realPowerTooLarge
  else .ok (.real (if negative then power.neg else power))

/-- The power of two doubles within the limit. A negative number to a fractional power is complex. -/
def powReal (x y : Double) : Arithmetic Quantity :=
  if y.isZero then .ok (.real (Double.ofInt 1))
  else if x = .nan then .ok (.real .nan)
  else if y = .nan then .ok (.real (if x = Double.ofInt 1 then x else .nan))
  else if x.isZero then
    if y.isNegative then .fail .zeroToNegativePower
    else .ok (.real (if isOddWhole y then x else x.abs))
  else if x.isNegative then
    if y.toInt?.isNone then powComplex (Complex.ofReal x) (Complex.ofReal y)
    else powPositive (isOddWhole y) x.neg y
  else powPositive false x y

/-- The power of two numbers within the limit: exact for integers as long as the exponent is not
negative. -/
def powWithinLimit (a b : Quantity) : Arithmetic Quantity :=
  match pair a b with
  | .error e => .error e
  | .ok (.ints a b) =>
    if 0 ≤ b then .ok (.int (intPow a b.toNat)) else powReal (Double.ofInt a) (Double.ofInt b)
  | .ok (.reals x y) => powReal x y
  | .ok (.complexes z w) => powComplex z w

/-- The power. It is refused if an operand is larger than the limit. -/
def pow (a b : Quantity) : Arithmetic Quantity :=
  match exceedsPowerLimit a with
  | .error e => .error e
  | .ok true => refuse
  | .ok false =>
    match exceedsPowerLimit b with
    | .error e => .error e
    | .ok true => refuse
    | .ok false => powWithinLimit a b
where
  /-- Refuses to compute the power, with a report that shows its operands. -/
  refuse : Arithmetic Quantity :=
    if a.isPrintable && b.isPrintable then .fail (.refusedPower a b) else .break .unprintable

/-! ## Reading -/

/-- Splits a text at the first character that is one of `marks`, which is left out. -/
def splitAtMark (marks : List Char) (text : Text) : Text × Option Text :=
  match text.dropWhile fun c => !marks.contains c with
  | [] => (text, none)
  | _ :: rest => (text.takeWhile fun c => !marks.contains c, some rest)

/-- Reads a sign. -/
def readSign : Text → Bool × Text
  | '-' :: rest => (true, rest)
  | '+' :: rest => (false, rest)
  | text => (false, text)

/-- Reads an integer with an optional sign. -/
def readInt (text : Text) : Int :=
  let (negative, digits) := readSign text
  if negative then -(numeralValue digits : Int) else numeralValue digits

/-- Reads a number: a double if there is a decimal point or an exponent, an integer otherwise. -/
def read (text : Text) : Quantity :=
  if text.contains '.' || text.contains 'e' then
    let (negative, unsigned) := readSign text
    let (significand, exponent) := splitAtMark ['e'] unsigned
    let (whole, fraction) := splitAtMark ['.'] significand
    let fraction := fraction.getD []
    let exponent := (exponent.map readInt).getD 0
    .real (Double.ofDecimal negative (numeralValue (whole ++ fraction)) (exponent - fraction.length))
  else .int (readInt text)

end Quantity

end DiceNotation
