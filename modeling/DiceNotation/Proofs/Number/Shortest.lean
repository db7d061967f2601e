import DiceNotation.Number.Decimal
import DiceNotation.Proofs.Number.Rounding
import Mathlib.Data.Nat.Digits.Defs

/-!
# Digits of doubles

The digits that a double is written with are found among the numbers of at most seventeen digits, and
they stand for a number that is not farther from the double than half a unit of its last bit
(`exists_shortestDigits`).

The search asks of a grid of decimal numbers whether one of the two neighbours of the double lies in
the interval that is rounded to it. A grid that is finer than the interval is wide has such a
neighbour (`RoundingInterval.exists_nearest?`), and with seventeen digits the grid is so fine, since
`2 ^ 53 < 10 ^ 16` (`RoundingInterval.exists_nearest?_seventeen`).
-/

namespace DiceNotation

variable {num den m : Nat} {e : Int}

/-! ## Decimal places -/

theorem natPow_div_natPow (grid : Int) :
    (natPow 10 grid.toNat : Rat) / (natPow 10 (-grid).toNat : Nat) = 10 ^ grid := by
  rw [natPow_eq, natPow_eq]
  push_cast
  obtain ⟨k, rfl | rfl⟩ := grid.eq_nat_or_neg
  · rw [Int.toNat_neg_natCast, Int.toNat_natCast, pow_zero, div_one, zpow_natCast]
  · rw [neg_neg, Int.toNat_neg_natCast, Int.toNat_natCast, pow_zero, zpow_neg, zpow_natCast, one_div]

theorem digitCount_pos (n : Nat) : 0 < digitCount n :=
  Nat.length_toDigits_pos

theorem lt_pow_digitCount (n : Nat) : n < 10 ^ digitCount n :=
  (Nat.length_toDigits_le_iff (by decide) (digitCount_pos n)).1 le_rfl

theorem pow_digitCount_le {n : Nat} (h : 0 < n) : 10 ^ (digitCount n - 1) ≤ n := by
  rcases Nat.eq_zero_or_pos (digitCount n - 1) with hone | hpos
  · rw [hone]
    exact h
  · have hcount : ¬digitCount n ≤ digitCount n - 1 := by omega
    exact not_lt.1 fun hlt => hcount ((Nat.length_toDigits_le_iff (by decide) hpos).2 hlt)

/-- The first digit of a fraction has the place value that its decimal point says. -/
theorem pow_pointOf_le (hnum : 0 < num) (hden : 0 < den) :
    (10 : Rat) ^ (pointOf num den - 1) ≤ num / den := by
  have hden' : (0 : Rat) < den := Nat.cast_pos.2 hden
  rw [pointOf]
  split
  · rename_i hle
    have hdigits := pow_digitCount_le (Nat.div_pos hle hden)
    have hcount := digitCount_pos (num / den)
    have hexponent : (digitCount (num / den) : Int) - 1 = (digitCount (num / den) - 1 : Nat) := by
      omega
    rw [Nat.le_div_iff_mul_le hden] at hdigits
    rw [hexponent, zpow_natCast, le_div_iff₀ hden']
    exact_mod_cast hdigits
  · -- The denominator is not more than the numerator with so many zeros behind it.
    have hdigits := lt_pow_digitCount ((den - 1) / num)
    rw [Nat.div_lt_iff_lt_mul hnum] at hdigits
    have hle : den ≤ 10 ^ digitCount ((den - 1) / num) * num := by omega
    have hexponent : (1 : Int) - digitCount ((den - 1) / num) - 1 =
        -(digitCount ((den - 1) / num) : Int) := by omega
    rw [hexponent, zpow_neg, zpow_natCast, le_div_iff₀ hden', inv_mul_le_iff₀ (by positivity)]
    exact_mod_cast hle

namespace RoundingInterval

variable {interval : RoundingInterval} {point : Int} {count n scale : Nat}

/-! ## Neighbours on a grid -/

theorem le_of_contains (h : interval.contains num scale = true) :
    interval.low * scale ≤ num ∧ num ≤ interval.high * scale := by
  rw [contains] at h
  split at h
  · simpa using h
  · have hlt : interval.low * scale < num ∧ num < interval.high * scale := by simpa using h
    exact ⟨hlt.1.le, hlt.2.le⟩

theorem contains_of_lt (hlow : interval.low * scale < num) (hhigh : num < interval.high * scale) :
    interval.contains num scale = true := by
  rw [contains]
  split
  · simpa using ⟨hlow.le, hhigh.le⟩
  · simpa using ⟨hlow, hhigh⟩

/-- Only a number in the interval is found. -/
theorem contains_of_nearest? (h : interval.nearest? point count = some n) :
    interval.contains (n * (interval.den * natPow 10 (point - count).toNat))
      (natPow 10 (-(point - count)).toNat) = true := by
  simp only [nearest?] at h
  split at h
  · cases h
  · rename_i hlower _
    cases h
    exact hlower
  · rename_i _ hupper
    cases h
    exact hupper
  · rename_i hlower hupper
    split at h
    · cases h
      exact hlower
    · cases h
      exact hupper

/-- A number is found if the interval is wider than the grid. -/
theorem exists_nearest? (hden : 0 < interval.den) (hlow : interval.low < interval.value)
    (hhigh : interval.value < interval.high)
    (hfine : (interval.low / interval.den + 10 ^ (point - count) : Rat) <
      interval.high / interval.den) :
    ∃ n, interval.nearest? point count = some n := by
  have hscale : 0 < natPow 10 (-(point - count)).toNat := natPow_pos (by decide) _
  have hstep : 0 < interval.den * natPow 10 (point - count).toNat :=
    Nat.mul_pos hden (natPow_pos (by decide) _)
  have hwide : interval.low * natPow 10 (-(point - count)).toNat +
      interval.den * natPow 10 (point - count).toNat <
        interval.high * natPow 10 (-(point - count)).toNat := by
    have hden' : (0 : Rat) < interval.den := Nat.cast_pos.2 hden
    have hscale' : (0 : Rat) < natPow 10 (-(point - count)).toNat := Nat.cast_pos.2 hscale
    rw [← natPow_div_natPow, div_add_div _ _ hden'.ne' hscale'.ne',
      ← mul_div_mul_right (interval.high : Rat) _ hscale'.ne',
      div_lt_div_iff_of_pos_right (mul_pos hden' hscale')] at hfine
    exact_mod_cast hfine
  simp only [nearest?]
  generalize natPow 10 (-(point - count)).toNat = scale at *
  generalize interval.den * natPow 10 (point - count).toNat = step at *
  have hbelow : interval.low * scale < interval.value * scale := Nat.mul_lt_mul_of_pos_right hlow hscale
  have habove : interval.value * scale < interval.high * scale :=
    Nat.mul_lt_mul_of_pos_right hhigh hscale
  have hlower := Nat.div_mul_le_self (interval.value * scale) step
  have hupper := Nat.lt_div_mul_add (a := interval.value * scale) hstep
  generalize interval.value * scale / step = lower at *
  have hone : interval.contains (lower * step) scale = true ∨
      interval.contains ((lower + 1) * step) scale = true := by
    rw [Nat.succ_mul]
    by_cases hin : interval.low * scale < lower * step
    · exact .inl (contains_of_lt hin (by omega))
    · exact .inr (contains_of_lt (by omega) (by omega))
  split
  · rename_i hlower hupper
    rw [hlower, hupper] at hone
    simp at hone
  · exact ⟨_, rfl⟩
  · exact ⟨_, rfl⟩
  · split <;> exact ⟨_, rfl⟩

/-- What is found lies between the ends of the interval. -/
theorem bounds_of_nearest? (hden : 0 < interval.den)
    (h : interval.nearest? point count = some n) :
    (interval.low / interval.den : Rat) ≤ n * 10 ^ (point - count) ∧
      (n * 10 ^ (point - count) : Rat) ≤ interval.high / interval.den := by
  obtain ⟨hlow, hhigh⟩ := le_of_contains (contains_of_nearest? h)
  have hden' : (0 : Rat) < interval.den := Nat.cast_pos.2 hden
  have hscale : (0 : Rat) < natPow 10 (-(point - count)).toNat :=
    Nat.cast_pos.2 (natPow_pos (by decide) _)
  rw [← natPow_div_natPow, mul_div_assoc', div_le_div_iff₀ hden' hscale,
    div_le_div_iff₀ hscale hden', mul_assoc, mul_comm (natPow 10 (point - count).toNat : Rat)]
  exact_mod_cast And.intro hlow hhigh

/-! ## The interval of a double -/

theorem unit_div_den (e : Int) :
    ((1 <<< (e - 2).toNat : Nat) : Rat) / (1 <<< (2 - e).toNat : Nat) = 2 ^ e / 4 := by
  have h := Double.shiftLeft_div_shiftLeft 1 1 (2 - e)
  rw [neg_sub] at h
  rw [h, zpow_sub₀ two_ne_zero, Nat.cast_one, one_div_one, one_div_div]
  norm_num

theorem quarters_div_den (c : Nat) (m : Nat) (e : Int) :
    ((c * (1 <<< (e - 2).toNat) : Nat) : Rat) / (ofDouble m e).den = c * 2 ^ e / 4 := by
  rw [ofDouble, Nat.cast_mul, mul_div_assoc, unit_div_den, mul_div_assoc]

theorem value_div_den (m : Nat) (e : Int) :
    ((ofDouble m e).value : Rat) / (ofDouble m e).den = m * 2 ^ e := by
  have h := quarters_div_den (4 * m) m e
  push_cast at h
  rw [ofDouble] at h ⊢
  push_cast
  rw [h]
  ring

theorem high_div_den (m : Nat) (e : Int) :
    ((ofDouble m e).high : Rat) / (ofDouble m e).den = m * 2 ^ e + 2 ^ e / 2 := by
  have h := quarters_div_den (4 * m + 2) m e
  push_cast at h
  rw [ofDouble] at h ⊢
  push_cast
  rw [h]
  ring

/-- The interval reaches half a unit of the last bit below the double, or half as far if the double is
a power of two. -/
theorem low_div_den (hm : 0 < m) (e : Int) :
    ((ofDouble m e).low : Rat) / (ofDouble m e).den = m * 2 ^ e - 2 ^ e / 2 ∨
    m = Double.leadingBit ∧
      ((ofDouble m e).low : Rat) / (ofDouble m e).den = m * 2 ^ e - 2 ^ e / 4 := by
  by_cases hpower : m = Double.leadingBit ∧ Double.minExponent < e
  · refine .inr ⟨hpower.1, ?_⟩
    have h := quarters_div_den (4 * m - 1) m e
    rw [ofDouble, if_pos hpower] at *
    rw [h, Nat.cast_sub (by omega)]
    push_cast
    ring
  · refine .inl ?_
    have h := quarters_div_den (4 * m - 2) m e
    rw [ofDouble, if_neg hpower] at *
    rw [h, Nat.cast_sub (by omega)]
    push_cast
    ring

theorem den_ofDouble_pos (m : Nat) (e : Int) : 0 < (ofDouble m e).den :=
  Double.shiftLeft_pos Nat.one_pos _

/-- The grid of seventeen digits is finer than the interval of a double is wide. -/
theorem low_add_lt_high (hm : 0 < m) (hlt : m < 2 * Double.leadingBit) {step : Rat}
    (hstep : step * 10 ^ 16 ≤ m * 2 ^ e) :
    ((ofDouble m e).low : Rat) / (ofDouble m e).den + step <
      (ofDouble m e).high / (ofDouble m e).den := by
  have hunit : (0 : Rat) < 2 ^ e := zpow_pos two_pos e
  rw [high_div_den]
  rcases low_div_den hm e with hlow | ⟨hpower, hlow⟩
  · have hvalue : (m * 2 ^ e : Rat) < 2 ^ 53 * 2 ^ e := by
      refine mul_lt_mul_of_pos_right ?_ hunit
      exact_mod_cast Double.two_mul_leadingBit ▸ hlt
    linarith
  · have hvalue : (m * 2 ^ e : Rat) = 2 ^ 52 * 2 ^ e := by
      rw [hpower]
      norm_num [Double.leadingBit, Nat.shiftLeft_eq]
    linarith

theorem exists_nearest?_seventeen (hm : 0 < m) (hlt : m < 2 * Double.leadingBit) (e : Int) :
    ∃ n, (ofDouble m e).nearest? (pointOf (ofDouble m e).value (ofDouble m e).den) 17 = some n := by
  have hunit : 0 < 1 <<< (e - 2).toNat := Double.shiftLeft_pos Nat.one_pos _
  have hden := den_ofDouble_pos m e
  have hlow : (ofDouble m e).low < (ofDouble m e).value := by
    refine Nat.mul_lt_mul_of_pos_right ?_ hunit
    split <;> omega
  have hhigh : (ofDouble m e).value < (ofDouble m e).high :=
    Nat.mul_lt_mul_of_pos_right (by omega) hunit
  have hpoint := pow_pointOf_le (Nat.zero_lt_of_lt hlow) hden
  refine exists_nearest? hden hlow hhigh (low_add_lt_high hm hlt ?_)
  rw [← value_div_den]
  refine Eq.trans_le ?_ hpoint
  rw [← zpow_natCast (10 : Rat) 16, ← zpow_add₀ (by norm_num)]
  congr 1
  push_cast
  ring

end RoundingInterval

/-! ## Shortest digits -/

open RoundingInterval

/-- Digits are found for every positive double, and the number that they stand for is within half a
unit of its last bit. -/
theorem exists_shortestDigits (hm : 0 < m) (hlt : m < 2 * Double.leadingBit) (e : Int) :
    ∃ n grid, shortestDigits m e = Decimal.ofGrid n grid ∧
      |(n * 10 ^ grid - m * 2 ^ e : Rat)| ≤ 2 ^ e / 2 := by
  have hden := den_ofDouble_pos m e
  obtain ⟨nearest, hnearest⟩ := exists_nearest?_seventeen hm hlt e
  simp only [shortestDigits]
  generalize pointOf (ofDouble m e).value (ofDouble m e).den = point at hnearest
  split
  · rename_i decimal hfound
    obtain ⟨count, -, hcount⟩ := List.exists_of_findSome?_eq_some hfound
    obtain ⟨n, hn, rfl⟩ := Option.map_eq_some_iff.1 hcount
    refine ⟨n, _, rfl, ?_⟩
    obtain ⟨hlow, hhigh⟩ := bounds_of_nearest? hden hn
    have hunit : (0 : Rat) < 2 ^ e := zpow_pos two_pos e
    rw [high_div_den] at hhigh
    rw [abs_le]
    rcases low_div_den hm e with heq | ⟨-, heq⟩
    · rw [heq] at hlow
      constructor <;> linarith
    · rw [heq] at hlow
      constructor <;> linarith
  · -- The search does not pass seventeen digits without success.
    rename_i hnone
    have hseventeen := List.findSome?_eq_none_iff.1 hnone 17 (by decide)
    rw [hnearest] at hseventeen
    cases hseventeen

end DiceNotation
