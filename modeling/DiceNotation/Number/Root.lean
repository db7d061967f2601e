import DiceNotation.Number.Double

/-!
# Square roots and lengths

The root of a natural number is found bit by bit (`floorRoot`), and lies between the two bounds that
define it (`floorRoot_sq_le`, `lt_succ_floorRoot_sq`). The root of a double is this root of its
mantissa, widened to more bits than a double has, and is rounded once (`Double.sqrt`).

The length of a vector is not rounded once, but found in two steps (`Double.hypot`): the root of the
rounded sum of squares, and a correction of this root by what its square is off. It is mostly, but not
always, the double nearest to the length.
-/

namespace DiceNotation

/-! ## Natural numbers -/

/-- Finds the root of `n` bit by bit: the greatest `r` that agrees with `root` above the lowest
`bits` bits and has `r * r ≤ n`. -/
def rootBits (n : Nat) : Nat → Nat → Nat
  | 0, root => root
  | bits + 1, root =>
    let next := root + 1 <<< bits
    rootBits n bits (if next * next ≤ n then next else root)

theorem rootBits_bounds (n bits root : Nat) (low : root * root ≤ n)
    (high : n < (root + 1 <<< bits) * (root + 1 <<< bits)) :
    rootBits n bits root * rootBits n bits root ≤ n ∧
      n < (rootBits n bits root + 1) * (rootBits n bits root + 1) := by
  induction bits generalizing root with
  | zero => exact ⟨low, high⟩
  | succ bits ih =>
    have double : 1 <<< (bits + 1) = 1 <<< bits + 1 <<< bits := by
      rw [Nat.shiftLeft_succ, Nat.two_mul]
    rw [double, ← Nat.add_assoc] at high
    rw [rootBits]
    by_cases h : (root + 1 <<< bits) * (root + 1 <<< bits) ≤ n
    · simpa only [h, if_true] using ih _ h high
    · simpa only [h, if_false] using ih _ low (Nat.lt_of_not_le h)

/-- The greatest number whose square is at most `n`. -/
def floorRoot (n : Nat) : Nat :=
  rootBits n (n.log2 / 2 + 1) 0

theorem floorRoot_bounds (n : Nat) :
    floorRoot n * floorRoot n ≤ n ∧ n < (floorRoot n + 1) * (floorRoot n + 1) := by
  refine rootBits_bounds n _ 0 (Nat.zero_le n) ?_
  rw [Nat.zero_add, Nat.shiftLeft_eq, Nat.one_mul, ← Nat.pow_add]
  refine Nat.lt_of_lt_of_le Nat.lt_log2_self (Nat.pow_le_pow_right (by decide) ?_)
  omega

theorem floorRoot_sq_le (n : Nat) : floorRoot n * floorRoot n ≤ n :=
  (floorRoot_bounds n).1

theorem lt_succ_floorRoot_sq (n : Nat) : n < (floorRoot n + 1) * (floorRoot n + 1) :=
  (floorRoot_bounds n).2

/-! ## Doubles -/

namespace Double

/-- The double nearest to the square root; there is none of a number below zero. -/
def sqrt : Double → Double
  | .nan => .nan
  | .infinite negative => if negative then .nan else .infinite false
  | .finite negative m e =>
    if m = 0 then signedZero negative
    else if negative then .nan
    else
      -- an even exponent, low enough that the root has more bits than a double
      let half := (e - 128) / 2
      let square := m <<< (e - 2 * half).toNat
      let root := floorRoot square
      -- one more bit tells whether the root is exact, so that the rounding is right
      let sticky := if root * root = square then 0 else 1
      ofScaled false (2 * root + sticky) (half - 1)

/-- How far the square of `root` is above the sum of the squares of `long` and `short`. It is put
together from the difference between the root and a side, the longer one if the root is more than
twice the shorter, which loses fewer digits than the squares. -/
def excess (long short root : Double) : Double :=
  let twice := (ofInt 2).mul
  if (twice short).lt root then
    let rest := root.sub long
    ((twice rest).mul (long.sub (twice short))).add
      (((((ofInt 4).mul rest).sub short).mul short).add (rest.mul rest))
  else
    let rest := root.sub short
    (long.mul ((twice rest).sub long)).add ((rest.sub (twice (long.sub short))).mul rest)

/-- The length of a vector with the sides `long` and `short`. A side that is too short to change the
other by a digit is added to it. -/
def correctedLength (long short : Double) : Double :=
  if long.lt (short.mul (ofScaled false 1 54)) then
    let root := ((long.mul long).add (short.mul short)).sqrt
    root.sub ((excess long short root).div ((ofInt 2).mul root))
  else long.add short

/-- The length of the vector with the given coordinates: infinite if a coordinate is, even if the
other is no number. It is found of a vector of about the length one, so that no square is out of
range. -/
def hypot : Double → Double → Double
  | .infinite _, _ | _, .infinite _ => .infinite false
  | .nan, _ | _, .nan => .nan
  | .finite _ m e, .finite _ n f =>
    let size := max e f + 52
    let a := ofScaled false m (e - size)
    let b := ofScaled false n (f - size)
    match if a.lt b then correctedLength b a else correctedLength a b with
    | .finite _ root g => ofScaled false root (g + size)
    | length => length

end Double

end DiceNotation
