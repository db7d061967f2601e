/-!
# Powers

The powers of whole numbers that limits, place values and formulas are made of. They are core's own
powers, which closed terms evaluate to a numeral; the laws say what each is from one exponent to the
next.
-/

namespace DiceNotation

/-- The power of a natural number. -/
def natPow (base n : Nat) : Nat :=
  (@instHPow Nat Nat instPowNat).hPow base n

/-- The power of an integer. -/
def intPow (base : Int) (n : Nat) : Int :=
  (@instHPow Int Nat instPowNat).hPow base n

@[simp]
theorem natPow_zero (a : Nat) : natPow a 0 = 1 := rfl

theorem natPow_succ (a n : Nat) : natPow a (n + 1) = natPow a n * a := rfl

theorem natPow_pos {a : Nat} (h : 0 < a) (n : Nat) : 0 < natPow a n :=
  Nat.pow_pos h

theorem natPow_le_right {a m n : Nat} (ha : 0 < a) (h : m ≤ n) : natPow a m ≤ natPow a n :=
  Nat.pow_le_pow_right ha h

@[simp]
theorem intPow_zero (a : Int) : intPow a 0 = 1 :=
  Int.pow_zero a

theorem natAbs_intPow (a : Int) (n : Nat) : (intPow a n).natAbs = natPow a.natAbs n :=
  Int.natAbs_pow a n

end DiceNotation
