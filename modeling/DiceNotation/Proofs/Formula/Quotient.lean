import DiceNotation.Proofs.Formula.Exact

/-!
# Exact quotients

The division of a formula leaves the integers, even where it goes without a remainder. Nothing is
lost by this as long as the quotient is at most `2 ^ 53` in size: it is then a double itself, and so
rounding does not change it (`Double.toRat_ofQuotient`), and as a whole double it is made an integer
again (`Formula.evaluate_quotient`). The operands themselves may be far too large for doubles.
-/

namespace DiceNotation

variable {a b : Int}

namespace Double

/-- Whole numbers of at most `2 ^ 53` are of double precision. -/
theorem exists_isRepresentable_of_le {q : Nat} (h : q ≤ 2 ^ 53) (negative : Bool) :
    ∃ m e, (Double.finite negative m e).IsRepresentable ∧ (q : Rat) = m * 2 ^ e := by
  rcases Nat.lt_or_eq_of_le h with hlt | rfl
  · exact ⟨q, 0, ⟨hlt, by decide, by decide⟩, by simp⟩
  · refine ⟨leadingBit, 1, ⟨by decide, by decide, by decide⟩, ?_⟩
    norm_num [leadingBit, Nat.shiftLeft_eq]

/-- A quotient is negative if just one of its operands is. -/
theorem sign_mul_natAbs (hb : b ≠ 0) (c : Int) :
    ((if decide (b * c < 0) != decide (b < 0) then -1 else 1) * c.natAbs : Rat) = c := by
  have hnegative : (-1 * c.natAbs : Rat) = c ↔ c ≤ 0 := by
    rw [Nat.cast_natAbs, Int.cast_abs, neg_one_mul, neg_eq_iff_eq_neg, abs_eq_neg_self]
    exact_mod_cast Iff.rfl
  have hpositive : (1 * c.natAbs : Rat) = c ↔ 0 ≤ c := by
    rw [Nat.cast_natAbs, Int.cast_abs, one_mul, abs_eq_self]
    exact_mod_cast Iff.rfl
  rcases lt_trichotomy c 0 with hc | rfl | hc
  · rcases lt_or_gt_of_ne hb with hb | hb
    · rw [decide_eq_true hb, decide_eq_false (mul_pos_of_neg_of_neg hb hc).not_gt]
      exact hnegative.2 hc.le
    · rw [decide_eq_false hb.not_gt, decide_eq_true (mul_neg_of_pos_of_neg hb hc)]
      exact hnegative.2 hc.le
  · simp
  · rcases lt_or_gt_of_ne hb with hb | hb
    · rw [decide_eq_true hb, decide_eq_true (mul_neg_of_neg_of_pos hb hc)]
      exact hpositive.2 hc.le
    · rw [decide_eq_false hb.not_gt, decide_eq_false (mul_pos hb hc).not_gt]
      exact hpositive.2 hc.le

/-- An exact quotient that is not too large is not rounded. -/
theorem toRat_ofQuotient (hb : b ≠ 0) (hdvd : b ∣ a) (hsmall : |a / b| ≤ 2 ^ 53) :
    (ofQuotient a b).isFinite = true ∧ (ofQuotient a b).toRat = (a / b : Int) := by
  obtain ⟨c, rfl⟩ := hdvd
  rw [Int.mul_ediv_cancel_left c hb] at *
  have hb' : (b : Rat) ≠ 0 := Int.cast_ne_zero.2 hb
  have hquotient : ((b * c).natAbs / b.natAbs : Rat) = c.natAbs := by
    rw [Int.natAbs_mul, Nat.cast_mul, mul_div_cancel_left₀]
    exact_mod_cast Int.natAbs_ne_zero.2 hb
  have hc : c.natAbs ≤ 2 ^ 53 := by
    rw [Int.abs_eq_natAbs] at hsmall
    exact_mod_cast hsmall
  obtain ⟨m, e, hrepresentable, hvalue⟩ :=
    exists_isRepresentable_of_le hc (decide (b * c < 0) != decide (b < 0))
  obtain ⟨hfinite, hrat⟩ :=
    toRat_ofRatio (Int.natAbs_pos.2 hb) hrepresentable (hquotient.trans hvalue)
  refine ⟨hfinite, hrat.trans ?_⟩
  rw [hquotient]
  exact sign_mul_natAbs hb c

end Double

/-- The values of the two slots of a quotient. -/
def quotientValues (a b : Int) : List (Text × Quantity) :=
  [(slotName 0, .int a), (slotName 1, .int b)]

/-- A quotient of integers that goes without a remainder and is at most `2 ^ 53` in size is evaluated
to this integer, by way of the double that is equal to it. -/
theorem Formula.evaluate_quotient (hb : b ≠ 0) (hdvd : b ∣ a) (hsmall : |a / b| ≤ 2 ^ 53) :
    ∃ formula, compile "$0 / $1".toList = .ok formula ∧
      (∃ x, formula.quantity (.ofList (quotientValues a b)) = .ok (.real x) ∧
        x.toRat = (a / b : Int)) ∧
      formula.evaluate (.ofList (quotientValues a b)) = .ok (.int (a / b)) := by
  have hcompile : compile "$0 / $1".toList = .ok ⟨"slot0 / slot1".toList,
      .value (.binary .div (.name "slot0".toList) (.name "slot1".toList))⟩ := by cbv
  obtain ⟨hfinite, hrat⟩ := Double.toRat_ofQuotient hb hdvd hsmall
  have hdiv : (Quantity.int a).div (.int b) = .ok (.real (.ofQuotient a b)) := by
    rw [Quantity.div]
    simp only [Quantity.pair, Quantity.divInts, if_neg hb, hfinite, if_true]
  have hquantity : quantity ⟨"slot0 / slot1".toList,
      .value (.binary .div (.name "slot0".toList) (.name "slot1".toList))⟩
      (.ofList (quotientValues a b)) = .ok (.real (.ofQuotient a b)) :=
    congrArg Arithmetic.toEvaluation hdiv
  refine ⟨_, hcompile, ⟨_, hquantity, hrat⟩, ?_⟩
  rw [evaluate, hquantity]
  simp only [Number.ofQuantity_real (Double.toInt?_eq_some_iff.2 ⟨hfinite, hrat⟩)]

/-- Both operands are beyond the largest double, and the quotient is the largest one in size that is
admitted. -/
theorem Formula.evaluate_hugeQuotient :
    (-10 ^ 400 : Int) ≠ 0 ∧ (-10 ^ 400 : Int) ∣ 2 ^ 53 * 10 ^ 400 ∧
      |(2 ^ 53 * 10 ^ 400 : Int) / (-10 ^ 400)| ≤ 2 ^ 53 ∧
      ∃ formula, compile "$0 / $1".toList = .ok formula ∧
        formula.evaluate (.ofList (quotientValues (2 ^ 53 * 10 ^ 400) (-10 ^ 400))) =
          .ok (.int (-2 ^ 53)) := by
  have hb : (-10 ^ 400 : Int) ≠ 0 := neg_ne_zero.2 (pow_ne_zero _ (by decide))
  have hdvd : (-10 ^ 400 : Int) ∣ 2 ^ 53 * 10 ^ 400 := neg_dvd.2 (dvd_mul_left _ _)
  have hquotient : (2 ^ 53 * 10 ^ 400 : Int) / (-10 ^ 400) = -2 ^ 53 := by
    rw [Int.ediv_neg, Int.mul_ediv_cancel _ (pow_ne_zero _ (by decide))]
  have hsmall : |(2 ^ 53 * 10 ^ 400 : Int) / (-10 ^ 400)| ≤ 2 ^ 53 := by
    rw [hquotient, abs_neg, abs_of_nonneg (by decide)]
  obtain ⟨formula, hcompile, -, hevaluate⟩ := evaluate_quotient hb hdvd hsmall
  rw [hquotient] at hevaluate
  exact ⟨hb, hdvd, hsmall, formula, hcompile, hevaluate⟩

end DiceNotation
