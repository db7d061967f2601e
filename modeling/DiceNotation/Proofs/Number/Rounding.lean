import DiceNotation.Number.Double
import DiceNotation.Number.Power
import Mathlib.Algebra.Order.Field.Basic
import Mathlib.Algebra.Order.Field.Power
import Mathlib.Algebra.Order.Ring.Rat
import Mathlib.Tactic.FieldSimp
import Mathlib.Tactic.Linarith
import Mathlib.Tactic.NormNum

/-!
# Rounding to double precision

A finite double is a rational number (`Double.toRat`), and it is one that double precision has if its
mantissa fits in fifty-three bits and its exponent is in range (`Double.IsRepresentable`). Every
operation rounds a fraction by `Double.ofRatio`, of which two laws are proved:

* *range*: what comes out is representable (`Double.isRepresentable_ofRatio`);
* *exactness*: a fraction that can be written with such a mantissa and such an exponent is not changed
  (`Double.toRat_ofRatio`).

Both rest on the exponent that is chosen for a fraction: with it the fraction has no more than
fifty-three bits before the point (`Double.scaled_div_lt`), and no smaller mantissa than any other
way of writing it (`Double.roundingExponent_le`).

A finite double is read as an integer exactly if it is equal to it (`Double.toInt?_eq_some_iff`).
-/

namespace DiceNotation

theorem natPow_eq (a n : Nat) : natPow a n = a ^ n := rfl

namespace Double

variable {negative : Bool} {num den m : Nat} {e : Int}

/-- The rational number that a finite value is. The other values count as zero. -/
def toRat : Double → Rat
  | .finite negative m e => (if negative then -1 else 1) * (m * 2 ^ e)
  | _ => 0

/-- The value has at most fifty-three bits and an exponent in range, as every number of double
precision does. -/
def IsRepresentable : Double → Prop
  | .finite _ m e => m < 2 * leadingBit ∧ minExponent ≤ e ∧ e ≤ maxExponent
  | _ => True

/-! ## Scales -/

/-- A fraction is divided by a power of two by a shift of its numerator or of its denominator. -/
theorem shiftLeft_div_shiftLeft (num den : Nat) (e : Int) :
    ((num <<< (-e).toNat : Nat) : Rat) / (den <<< e.toNat : Nat) = num / den / 2 ^ e := by
  rw [Nat.shiftLeft_eq, Nat.shiftLeft_eq]
  push_cast
  obtain ⟨k, rfl | rfl⟩ := e.eq_nat_or_neg
  · rw [Int.toNat_neg_natCast, Int.toNat_natCast, pow_zero, mul_one, zpow_natCast, div_div]
  · rw [neg_neg, Int.toNat_neg_natCast, Int.toNat_natCast, pow_zero, mul_one, zpow_neg,
      zpow_natCast, div_inv_eq_mul, mul_div_right_comm]

theorem shiftLeft_pos (h : 0 < den) (k : Nat) : 0 < den <<< k := by
  rw [Nat.shiftLeft_eq]
  exact Nat.mul_pos h (Nat.two_pow_pos k)

theorem shiftLeft_lt_shiftLeft_iff (h : 0 < den) :
    num <<< (-e).toNat < den <<< e.toNat ↔ (num / den : Rat) < 2 ^ e := by
  have hshift : (0 : Rat) < (den <<< e.toNat : Nat) := Nat.cast_pos.2 (shiftLeft_pos h _)
  have hscale : (0 : Rat) < 2 ^ e := zpow_pos two_pos e
  rw [← div_lt_one hscale, ← shiftLeft_div_shiftLeft, div_lt_one hshift, Nat.cast_lt]

theorem log2_bounds (h : 0 < num) :
    (2 : Rat) ^ (num.log2 : Int) ≤ num ∧ (num : Rat) < 2 ^ (num.log2 + 1 : Int) := by
  constructor
  · rw [zpow_natCast]
    exact_mod_cast Nat.log2_self_le h.ne'
  · have hlt : num < 2 ^ (num.log2 + 1) := Nat.lt_log2_self
    exact_mod_cast hlt

/-- The power of two at or next below a fraction. -/
theorem floorLog2_bounds (hnum : 0 < num) (hden : 0 < den) :
    (2 : Rat) ^ floorLog2 num den ≤ num / den ∧
      (num / den : Rat) < 2 ^ (floorLog2 num den + 1) := by
  obtain ⟨hnumLow, hnumHigh⟩ := log2_bounds hnum
  obtain ⟨hdenLow, hdenHigh⟩ := log2_bounds hden
  have hden' : (0 : Rat) < den := Nat.cast_pos.2 hden
  have hlow : (2 : Rat) ^ ((num.log2 : Int) - den.log2 - 1) ≤ num / den := by
    calc (2 : Rat) ^ ((num.log2 : Int) - den.log2 - 1)
        = 2 ^ (num.log2 : Int) / 2 ^ (den.log2 + 1 : Int) := by
          rw [← zpow_sub₀ two_ne_zero]
          congr 1
          omega
      _ ≤ num / den := div_le_div₀ (Nat.cast_nonneg _) hnumLow hden' hdenHigh.le
  have hhigh : (num / den : Rat) < 2 ^ ((num.log2 : Int) - den.log2 + 1) := by
    calc (num / den : Rat) < 2 ^ (num.log2 + 1 : Int) / 2 ^ (den.log2 : Int) :=
          div_lt_div₀ hnumHigh hdenLow (zpow_nonneg zero_le_two _) (zpow_pos two_pos _)
      _ = 2 ^ ((num.log2 : Int) - den.log2 + 1) := by
          rw [← zpow_sub₀ two_ne_zero]
          congr 1
          omega
  simp only [floorLog2]
  split
  · rename_i hbelow
    rw [sub_add_cancel]
    exact ⟨hlow, (shiftLeft_lt_shiftLeft_iff hden).1 hbelow⟩
  · rename_i hbelow
    exact ⟨not_lt.1 (mt (shiftLeft_lt_shiftLeft_iff hden).2 hbelow), hhigh⟩

/-! ## Range -/

theorem roundHalfEven_le (num den : Nat) : roundHalfEven num den ≤ num / den + 1 := by
  simp only [roundHalfEven]
  split
  · exact Nat.le_succ _
  · exact Nat.le_refl _

/-- A whole quotient is not changed. -/
theorem roundHalfEven_mul (q : Nat) (h : 0 < den) : roundHalfEven (q * den) den = q := by
  simp only [roundHalfEven, Nat.mul_div_cancel q h, Nat.mul_mod_left, Nat.mul_zero, h, decide_true,
    Bool.true_or, if_true]

theorem minExponent_le_roundingExponent (num den : Nat) :
    minExponent ≤ roundingExponent num den :=
  le_max_left _ _

theorem floorLog2_le_roundingExponent (num den : Nat) :
    floorLog2 num den - 52 ≤ roundingExponent num den :=
  le_max_right _ _

theorem two_mul_leadingBit : 2 * leadingBit = 2 ^ 53 := rfl

/-- On the scale of its rounding exponent, a fraction has no more than fifty-three bits before the
point. -/
theorem scaled_div_lt (hnum : 0 < num) (hden : 0 < den) :
    (num <<< (-roundingExponent num den).toNat) / (den <<< (roundingExponent num den).toNat) <
      2 * leadingBit := by
  have hpos : 0 < den <<< (roundingExponent num den).toNat := shiftLeft_pos hden _
  have hscaled : (num / den / 2 ^ roundingExponent num den : Rat) < 2 ^ (53 : Int) := by
    rw [div_lt_iff₀ (zpow_pos two_pos _), ← zpow_add₀ two_ne_zero]
    refine (floorLog2_bounds hnum hden).2.trans_le (zpow_le_zpow_right₀ one_le_two ?_)
    have := floorLog2_le_roundingExponent num den
    omega
  rw [← shiftLeft_div_shiftLeft, div_lt_iff₀ (Nat.cast_pos.2 hpos)] at hscaled
  rw [Nat.div_lt_iff_lt_mul hpos, two_mul_leadingBit]
  exact_mod_cast hscaled

theorem isRepresentable_signedZero : (signedZero negative).IsRepresentable := by
  refine ⟨?_, ?_, ?_⟩ <;> decide

/-- Rounding stays within double precision. -/
theorem isRepresentable_ofRatio (hden : 0 < den) : (ofRatio negative num den).IsRepresentable := by
  rcases num.eq_zero_or_pos with rfl | hnum
  · exact isRepresentable_signedZero
  · have hround := roundHalfEven_le (num <<< (-roundingExponent num den).toNat)
      (den <<< (roundingExponent num den).toNat)
    have hdiv := scaled_div_lt hnum hden
    have hlow := minExponent_le_roundingExponent num den
    simp only [ofRatio, if_neg hnum.ne']
    generalize roundHalfEven _ _ = m at hround
    by_cases hcarry : m = 2 * leadingBit
    · simp only [if_pos hcarry]
      split
      · trivial
      · exact ⟨by decide, by omega, by omega⟩
    · simp only [if_neg hcarry]
      split
      · trivial
      · exact ⟨by omega, by omega, by omega⟩

/-! ## Exactness -/

theorem mul_zpow_lt (hm : m < 2 * leadingBit) (e : Int) : (m * 2 ^ e : Rat) < 2 ^ (53 + e) := by
  rw [zpow_add₀ two_ne_zero]
  refine mul_lt_mul_of_pos_right ?_ (zpow_pos two_pos e)
  exact_mod_cast two_mul_leadingBit ▸ hm

/-- The exponent of rounding is not above one with which the fraction can be written. -/
theorem roundingExponent_le (hnum : 0 < num) (hden : 0 < den) (hm : m < 2 * leadingBit)
    (he : minExponent ≤ e) (hvalue : (num / den : Rat) = m * 2 ^ e) :
    roundingExponent num den ≤ e := by
  have hlt : (2 : Rat) ^ floorLog2 num den < 2 ^ (53 + e) := by
    calc (2 : Rat) ^ floorLog2 num den ≤ num / den := (floorLog2_bounds hnum hden).1
      _ = m * 2 ^ e := hvalue
      _ < 2 ^ (53 + e) := mul_zpow_lt hm e
  have hlog := (zpow_lt_zpow_iff_right₀ one_lt_two).1 hlt
  exact max_le he (by omega)

/-- A fraction that can be written in double precision is not changed by rounding. -/
theorem toRat_ofRatio (hden : 0 < den) (h : (Double.finite negative m e).IsRepresentable)
    (hvalue : (num / den : Rat) = m * 2 ^ e) :
    (ofRatio negative num den).isFinite = true ∧
      (ofRatio negative num den).toRat = (if negative then -1 else 1) * (num / den) := by
  obtain ⟨hm, hlow, hhigh⟩ := h
  rcases num.eq_zero_or_pos with rfl | hnum
  · refine ⟨rfl, ?_⟩
    simp [ofRatio, signedZero, toRat]
  · have hle := roundingExponent_le hnum hden hm hlow hvalue
    have hdiv := scaled_div_lt hnum hden
    have hscaled := shiftLeft_div_shiftLeft num den (roundingExponent num den)
    have hpos := shiftLeft_pos hden (roundingExponent num den).toNat
    simp only [ofRatio, if_neg hnum.ne']
    generalize roundingExponent num den = f at hle hdiv hscaled hpos
    -- The scaled fraction is a whole number, and so nothing is rounded off.
    obtain ⟨k, hk⟩ := Int.le.dest hle
    have hwhole : num <<< (-f).toNat = m * 2 ^ k * den <<< f.toNat := by
      rw [hvalue, ← hk, zpow_add₀ two_ne_zero, ← mul_assoc, mul_right_comm,
        mul_div_cancel_right₀ _ (zpow_ne_zero _ two_ne_zero),
        div_eq_iff (Nat.cast_ne_zero.2 hpos.ne'), zpow_natCast] at hscaled
      exact_mod_cast hscaled
    rw [hwhole, Nat.mul_div_cancel _ hpos] at hdiv
    rw [hwhole, roundHalfEven_mul _ hpos]
    simp only [if_neg hdiv.ne, if_neg (not_lt.2 (hle.trans hhigh))]
    refine ⟨rfl, ?_⟩
    rw [toRat, hvalue, ← hk, zpow_add₀ two_ne_zero, zpow_natCast, mul_comm ((2 : Rat) ^ f),
      ← mul_assoc (m : Rat)]
    push_cast
    rfl

/-! ## Whole values -/

theorem div_shiftLeft_eq_iff (m : Nat) (e : Int) (c : Nat) :
    (m % (1 <<< (-e).toNat) = 0 ∧ (m / (1 <<< (-e).toNat)) <<< e.toNat = c) ↔
      (m * 2 ^ e : Rat) = c := by
  obtain ⟨k, rfl | rfl⟩ := e.eq_nat_or_neg
  · rw [Int.toNat_neg_natCast, Int.toNat_natCast, Nat.shiftLeft_zero, Nat.mod_one, Nat.div_one,
      Nat.shiftLeft_eq, zpow_natCast, and_iff_right rfl]
    exact_mod_cast Iff.rfl
  · have hpow : (2 : Rat) ^ k ≠ 0 := pow_ne_zero _ two_ne_zero
    rw [neg_neg, Int.toNat_neg_natCast, Int.toNat_natCast, Nat.shiftLeft_zero, Nat.shiftLeft_eq,
      one_mul, zpow_neg, zpow_natCast, ← div_eq_mul_inv, div_eq_iff hpow]
    constructor
    · rintro ⟨hmod, rfl⟩
      exact_mod_cast (Nat.div_mul_cancel (Nat.dvd_of_mod_eq_zero hmod)).symm
    · intro h
      have hm : m = c * 2 ^ k := by exact_mod_cast h
      rw [hm]
      exact ⟨Nat.mul_mod_left _ _, Nat.mul_div_cancel _ (Nat.two_pow_pos k)⟩

theorem abs_toRat (negative : Bool) (m : Nat) (e : Int) :
    |(Double.finite negative m e).toRat| = m * 2 ^ e := by
  have hnonneg : (0 : Rat) ≤ m * 2 ^ e := mul_nonneg (Nat.cast_nonneg m) (zpow_nonneg zero_le_two e)
  rw [toRat, abs_mul, abs_of_nonneg hnonneg]
  cases negative <;> simp

theorem toInt?_finite_eq_some_iff {n : Int} :
    (Double.finite negative m e).toInt? = some n ↔ (Double.finite negative m e).toRat = n := by
  simp only [toInt?, toRat, Option.ite_none_right_eq_some, Option.some.injEq]
  constructor
  · rintro ⟨hmod, rfl⟩
    rw [(div_shiftLeft_eq_iff m e _).1 ⟨hmod, rfl⟩]
    generalize (m / 1 <<< (-e).toNat) <<< e.toNat = c
    cases negative <;> simp
  · intro h
    have hnonneg : (0 : Rat) ≤ m * 2 ^ e := mul_nonneg (Nat.cast_nonneg m) (zpow_nonneg zero_le_two e)
    -- The size of the integer is the value without its sign.
    have habs : (m * 2 ^ e : Rat) = n.natAbs := by
      rw [Nat.cast_natAbs, Int.cast_abs, ← h]
      exact (abs_toRat negative m e).symm
    obtain ⟨hmod, hdiv⟩ := (div_shiftLeft_eq_iff m e _).2 habs
    refine ⟨hmod, ?_⟩
    rw [hdiv]
    cases negative with
    | false =>
      have hn : (0 : Rat) ≤ n := by
        rw [← h]
        simpa using hnonneg
      have := Int.cast_nonneg_iff.1 hn
      simp only [Bool.false_eq_true, if_false]
      omega
    | true =>
      have hn : (n : Rat) ≤ 0 := by
        rw [← h]
        simpa using hnonneg
      have := Int.cast_nonpos.1 hn
      simp only [if_true]
      omega

/-- The integer that a value is read as is the one that it is equal to, if it is finite. -/
theorem toInt?_eq_some_iff {x : Double} {n : Int} :
    x.toInt? = some n ↔ x.isFinite = true ∧ x.toRat = n := by
  cases x with
  | nan => exact ⟨nofun, fun h => nomatch h.1⟩
  | infinite negative => exact ⟨nofun, fun h => nomatch h.1⟩
  | finite negative m e => exact toInt?_finite_eq_some_iff.trans (and_iff_right rfl).symm

/-- An integer that a double is equal to is below `2 ^ 1024` in size, as all doubles are. -/
theorem IsRepresentable.natAbs_lt {x : Double} (h : x.IsRepresentable) {n : Int}
    (hn : x.toInt? = some n) : n.natAbs < 2 ^ 1024 := by
  cases x with
  | nan => cases hn
  | infinite negative => cases hn
  | finite negative m e =>
    obtain ⟨hm, -, he⟩ := h
    have hlt : (n.natAbs : Rat) < 2 ^ (1024 : Int) := by
      calc (n.natAbs : Rat) = m * 2 ^ e := by
            rw [Nat.cast_natAbs, Int.cast_abs, ← toInt?_finite_eq_some_iff.1 hn, abs_toRat]
        _ < 2 ^ (53 + e) := mul_zpow_lt hm e
        _ ≤ 2 ^ (1024 : Int) := zpow_le_zpow_right₀ one_le_two (Int.add_le_add_left he 53)
    exact_mod_cast hlt

end Double

end DiceNotation
