import DiceNotation.Proofs.Request.Discipline
import DiceNotation.Proofs.Request.Total

/-!
# The limit on results

An execution whose formula comes to an integer, be it by way of a double, stores the integer if it
has at most a thousand decimal digits, and records that the result is too large if it has more
(`Request.execute_of_comesTo`). The sign does not count, and the integer with the fewest digits that
is refused is `10 ^ 1000`.

The limit is checked for integers only. A double that is whole is stored unchecked, but it has far
fewer digits, since evaluation stays within double precision.
-/

namespace DiceNotation

/-- The number is the integer, or a double that is equal to it. -/
inductive Quantity.IsInteger (n : Int) : Quantity → Prop
  | int : IsInteger n (.int n)
  | real {x : Double} : x.toInt? = some n → IsInteger n (.real x)

/-- The number of decimal digits of an integer. -/
def integerDigits (n : Int) : Nat :=
  (decimalText n.natAbs).length

theorem integerDigits_le_iff {n : Int} : integerDigits n ≤ 1000 ↔ |n| < 10 ^ 1000 :=
  (length_decimalText_le_iff (by decide)).trans natAbs_lt_natPow_iff

/-- An integer is reported if it has at most a thousand digits. -/
theorem Number.ofQuantity_of_isInteger {a : Quantity} {n : Int} (h : a.IsInteger n)
    (ha : a.IsPrecise) :
    ofQuantity a = if integerDigits n ≤ 1000 then .ok (.int n) else .error .tooLarge := by
  cases h with
  | int =>
    rw [ofQuantity_int]
    exact if_congr integerDigits_le_iff.symm rfl rfl
  | real hn =>
    -- What is made of a double is normal, and so it has few enough digits.
    have hnumber := ofQuantity_real hn
    have hnormal : |n| < 10 ^ 1000 := isNormal_of_ofQuantity ha hnumber
    rw [hnumber, if_pos (integerDigits_le_iff.2 hnormal)]

/-- The values of a request are integers. -/
theorem Value.isPrecise_scope (values : List Value) : (scope values).All Quantity.IsPrecise := by
  refine Scope.all_ofList fun pair hpair => ?_
  obtain ⟨⟨slot, value⟩, -, rfl⟩ := List.mem_map.1 hpair
  cases value <;> trivial

namespace Request

/-- The request is executed up to its evaluation: its groups are rolled, and over what they come to
the formula has an integer for its value. -/
structure ComesTo (request : Request) (source : Source) (rolled : List Value) (after : Source)
    (n : Int) : Prop where
  error : request.error = none
  groupFaults : request.groupFaults = []
  rollAll : Value.rollAll request.values source = (none, rolled, after)
  quantity : ∃ formula value, Formula.compile request.formula = .ok formula ∧
    formula.quantity (Value.scope rolled) = .ok value ∧ value.IsInteger n

variable {request : Request} {source after : Source} {rolled : List Value} {n : Int}

theorem ComesTo.execute_eq (h : request.ComesTo source rolled after n) :
    request.execute source = { request with values := rolled }.conclude after
      (if integerDigits n ≤ 1000 then .ok (.int n) else .fail .tooLarge) := by
  obtain ⟨herror, hfaults, hrolled, formula, value, hformula, hquantity, hinteger⟩ := h
  have hprecise : value.IsPrecise :=
    Formula.holds_of_quantity (isKept_isPrecise _) (Value.isPrecise_scope rolled) hquantity
  have hevaluate : formula.evaluate (Value.scope rolled) =
      if integerDigits n ≤ 1000 then .ok (.int n) else .fail .tooLarge := by
    rw [Formula.evaluate, hquantity]
    dsimp only
    rw [Number.ofQuantity_of_isInteger hinteger hprecise]
    by_cases hdigits : integerDigits n ≤ 1000
    · simp only [if_pos hdigits]
    · simp only [if_neg hdigits]
  rw [execute_eq_rollAndEvaluate herror hfaults hformula, rollAndEvaluate_eq_conclude hrolled,
    hevaluate]

/-- The wording of the error for a result with too many digits. -/
theorem message_tooLarge :
    (RequestError.formula .tooLarge).message = "Invalid formula: result is too large".toList := by
  decide +kernel

/-- An integer that the formula comes to is stored as the result exactly if it has at most a thousand
decimal digits, and is recorded to be too large exactly if it has more. -/
theorem execute_of_comesTo (h : request.ComesTo source rolled after n) :
    (request.execute source =
        ⟨none, { request with values := rolled, result := some (.int n) }, after⟩ ↔
      integerDigits n ≤ 1000) ∧
    ((∃ error : RequestError, error.message = "Invalid formula: result is too large".toList ∧
        request.execute source =
          ⟨none, { request with values := rolled, error := some error }, after⟩) ↔
      1000 < integerDigits n) := by
  rw [h.execute_eq]
  by_cases hdigits : integerDigits n ≤ 1000
  · rw [if_pos hdigits, conclude]
    refine ⟨iff_of_true rfl hdigits, iff_of_false ?_ (not_lt.2 hdigits)⟩
    rintro ⟨error, -, hexecute⟩
    have herror : request.error = some error := congrArg (·.request.error) hexecute
    rw [h.error] at herror
    cases herror
  · rw [if_neg hdigits, Evaluation.fail, conclude]
    refine ⟨iff_of_false ?_ hdigits, iff_of_true ⟨_, message_tooLarge, rfl⟩ (not_le.1 hdigits)⟩
    intro hexecute
    have herror : some (RequestError.formula .tooLarge) = request.error :=
      congrArg (·.request.error) hexecute
    rw [h.error] at herror
    cases herror

/-- A product of a die and a large power. -/
def largestResult : Request :=
  parse "d6*10^999".toList

/-- That request with its die rolled. -/
def largestResultRolled : List Value :=
  (Value.rollAll largestResult.values (.scripted #[1])).2.1

set_option maxRecDepth 6000 in
/-- An integer of a thousand digits is still stored. -/
theorem execute_largestResult :
    ∃ after, largestResult.ComesTo (.scripted #[1]) largestResultRolled after (intPow 10 999) ∧
      integerDigits (intPow 10 999) = 1000 ∧
      largestResult.execute (.scripted #[1]) = ⟨none, { largestResult with
        values := largestResultRolled, result := some (.int (intPow 10 999)) }, after⟩ := by
  have herror : largestResult.error = none := by cbv
  have hfaults : largestResult.groupFaults = [] := by cbv
  have hfailure : (Value.rollAll largestResult.values (.scripted #[1])).1 = none := by cbv
  have hcompile : Formula.compile largestResult.formula = .ok ⟨"slot0 * slot1 ** slot2".toList,
      .value (.binary .mul (.name "slot0".toList)
        (.binary .pow (.name "slot1".toList) (.name "slot2".toList)))⟩ := by cbv
  have hscope : Value.scope largestResultRolled =
      ⟨[("slot2".toList, .int 999), ("slot1".toList, .int 10), ("slot0".toList, .int 1)]⟩ := by
    cbv
  have hquantity : Formula.quantity ⟨"slot0 * slot1 ** slot2".toList,
      .value (.binary .mul (.name "slot0".toList)
        (.binary .pow (.name "slot1".toList) (.name "slot2".toList)))⟩
      (Value.scope largestResultRolled) = .ok (.int (intPow 10 999)) := by
    rw [hscope]
    decide +kernel
  have hdigits : integerDigits (intPow 10 999) = 1000 := by
    rw [integerDigits, natAbs_intPow]
    refine le_antisymm ((length_decimalText_le_iff (by decide)).2 (by decide +kernel)) ?_
    exact not_lt.1 fun hlt => absurd ((length_decimalText_le_iff (by decide)).1
      (Nat.le_of_lt_succ hlt : _ ≤ 999)) (by decide +kernel)
  have hcomes : largestResult.ComesTo (.scripted #[1]) largestResultRolled
      (Value.rollAll largestResult.values (.scripted #[1])).2.2 (intPow 10 999) :=
    ⟨herror, hfaults, Prod.ext hfailure rfl, _, _, hcompile, hquantity, .int⟩
  exact ⟨_, hcomes, hdigits, (execute_of_comesTo hcomes).1.2 hdigits.le⟩

end Request

end DiceNotation
