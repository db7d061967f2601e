import DiceNotation.Request.Report
import DiceNotation.Proofs.Formula.Exact
import DiceNotation.Proofs.Formula.Value
import DiceNotation.Proofs.Number.Shortest

/-!
# Totals

Whatever a formula comes across on the way, the number that it yields is normal
(`Number.IsNormal`): an integer of at most a thousand digits, or a finite double that is equal to no
integer. In particular a double that is whole, such as negative zero, is yielded as the integer. Such
a number can always be written, and the line with the total shows it (`Number.IsWritten`).

Integers are normal by the limit on results. Whole doubles are not compared with it, but they are far
below it anyway, as all doubles are (`Double.IsRepresentable.natAbs_lt`); here it matters that
evaluation stays within double precision.
-/

namespace DiceNotation

namespace Number

/-- An integer of at most a thousand digits, or a finite double that is equal to no integer. -/
def IsNormal : Number → Prop
  | .int n => |n| < 10 ^ 1000
  | .real x => x.isFinite = true ∧ x.IsRepresentable ∧ ∀ n : Int, x.toRat ≠ n

/-- The text is the number in decimal. Of an integer these are its digits, at most a thousand. Of a
double these are the digits of a number within half a unit of its last bit. -/
def IsWritten : Number → Text → Prop
  | .int n, text => ∃ digits : Text, text = (if n < 0 then ['-'] else []) ++ digits ∧
      digits.length ≤ 1000 ∧ (∀ c ∈ digits, c.isDigit = true) ∧ numeralValue digits = n.natAbs
  | .real (.finite negative m e), text => ∃ n grid,
      text = (if negative then ['-'] else []) ++ realLayout.place (.ofGrid n grid) ∧
        |(n * 10 ^ grid - m * 2 ^ e : Rat)| ≤ 2 ^ e / 2
  | .real _, _ => False

/-- The number as a quantity again. -/
def quantity : Number → Quantity
  | .int n => .int n
  | .real x => .real x

variable {number : Number}

/-- What is made of a quantity is normal. -/
theorem isNormal_of_ofQuantity {a : Quantity} (ha : a.IsPrecise)
    (h : ofQuantity a = .ok number) : number.IsNormal := by
  cases a with
  | int n =>
    rw [ofQuantity_int] at h
    split at h
    · rename_i hsmall
      cases h
      exact hsmall
    · cases h
  | real x =>
    cases x with
    | nan => cases h
    | infinite negative => cases h
    | finite negative m e =>
      rw [ofQuantity] at h
      simp only [Double.isFinite, Bool.not_true, Bool.false_eq_true, if_false] at h
      split at h
      · -- A whole double is not compared with the limit, but no double reaches it.
        rename_i n hn
        cases h
        have hrepresentable : (Double.finite negative m e).IsRepresentable := ha
        exact natAbs_lt_natPow_iff.1 ((hrepresentable.natAbs_lt hn).trans_le (by decide +kernel))
      · rename_i hnone
        cases h
        refine ⟨rfl, ha, fun n hn => ?_⟩
        rw [Double.toInt?_eq_some_iff.2 ⟨rfl, hn⟩] at hnone
        cases hnone
  | complex z => cases h

theorem IsNormal.isPrintable (h : number.IsNormal) : number.quantity.isPrintable = true := by
  cases number with
  | int n =>
    have hle : natPow 10 1000 ≤ printableLimit := by decide +kernel
    exact decide_eq_true ((natAbs_lt_natPow_iff.2 h).trans_le hle)
  | real x => rfl

/-- The text of a normal number is the number in decimal. -/
theorem IsNormal.isWritten_text (h : number.IsNormal) : number.IsWritten number.text := by
  cases number with
  | int n =>
    have hlength : (decimalText n.natAbs).length ≤ 1000 :=
      (length_decimalText_le_iff (by decide)).2 (natAbs_lt_natPow_iff.2 h)
    refine ⟨decimalText n.natAbs, ?_, hlength, fun c => isDigit_ascii_of_mem_decimalText,
      numeralValue_decimalText _⟩
    rw [text, integerText]
    split <;> rfl
  | real x =>
    obtain ⟨hfinite, hrepresentable, hwhole⟩ := h
    cases x with
    | nan => cases hfinite
    | infinite negative => cases hfinite
    | finite negative m e =>
      cases m with
      | zero =>
        -- Zero is whole.
        refine absurd ?_ (hwhole 0)
        simp [Double.toRat]
      | succ m =>
        obtain ⟨n, grid, hdigits, hnear⟩ := exists_shortestDigits m.succ_pos hrepresentable.1 e
        refine ⟨n, grid, ?_, hnear⟩
        rw [text, Layout.write, Layout.magnitude, hdigits, Double.signBit]

end Number

/-- Every number that a formula yields, over integers and doubles, is normal and can be written, and
the line with the total shows it. -/
theorem Formula.evaluate_isReportable {formula : Formula} {scope : Scope} {number : Number}
    (hscope : scope.All Quantity.IsPrecise) (h : formula.evaluate scope = .ok number) :
    number.IsNormal ∧ number.quantity.isPrintable = true ∧
      ∀ request : Request, request.result = some number →
        ∃ text, request.totalLine = "Total: ".toList ++ text ∧ number.IsWritten text := by
  obtain ⟨value, hvalue, hnumber⟩ := exists_quantity_of_evaluate h
  have hprecise : value.IsPrecise := holds_of_quantity (isKept_isPrecise _) hscope hvalue
  have hnormal := Number.isNormal_of_ofQuantity hprecise hnumber
  refine ⟨hnormal, hnormal.isPrintable, fun request hresult => ?_⟩
  have hnumber : request.resultText = number.text := by rw [Request.resultText, hresult]
  exact ⟨number.text, congrArg ("Total: ".toList ++ ·) hnumber, hnormal.isWritten_text⟩

/-- A double and an integer whose quotient is no integer. -/
def fractionValues : List (Text × Quantity) :=
  [("$0".toList, .real (.finite false (3 <<< 51) (-52))), ("$1".toList, .int 2)]

theorem Formula.evaluate_fraction :
    ∃ formula number, compile "$0 / $1".toList = .ok formula ∧
      (Scope.ofList fractionValues).All Quantity.IsPrecise ∧
      formula.evaluate (.ofList fractionValues) = .ok number ∧ number.text = "0.75".toList ∧
      number.IsNormal ∧ number.quantity.isPrintable = true ∧
      ∃ text, ({ result := some number } : Request).totalLine = "Total: ".toList ++ text ∧
        number.IsWritten text := by
  have hcompile : compile "$0 / $1".toList = .ok ⟨"slot0 / slot1".toList,
      .value (.binary .div (.name "slot0".toList) (.name "slot1".toList))⟩ := by cbv
  have hscope : (Scope.ofList fractionValues).All Quantity.IsPrecise := by
    refine Scope.all_ofList (List.forall_mem_cons.2 ⟨?_, List.forall_mem_singleton.2 trivial⟩)
    exact ⟨by decide, by decide, by decide⟩
  have hevaluate : evaluate ⟨"slot0 / slot1".toList,
      .value (.binary .div (.name "slot0".toList) (.name "slot1".toList))⟩
      (.ofList fractionValues) = .ok (.real (.finite false (3 <<< 51) (-53))) := by decide +kernel
  obtain ⟨hnormal, hprintable, hline⟩ := evaluate_isReportable hscope hevaluate
  refine ⟨_, _, hcompile, hscope, hevaluate, by cbv, hnormal, hprintable, ?_⟩
  exact hline { result := some (.real (.finite false (3 <<< 51) (-53))) } rfl

end DiceNotation
