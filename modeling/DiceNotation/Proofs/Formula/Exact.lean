import DiceNotation.Proofs.Formula.Arithmetic
import DiceNotation.Proofs.Number.Rounding

/-!
# Exact formulas

Integers stay integers under every operation but division. What a tree without division comes to is
said over the integers alone, from the bottom up (`Arith.HasInteger`): signs, sums, differences and
products, remainders with the sign of the divisor, and powers within the limit on their operands.
Wherever this gives the tree an integer, its formula has that integer for its value, and so has
every part of it on the way: no double comes into it, however large the integers get
(`Arith.evaluate_eq_integer`). Only at the end is an integer refused as a result, if it has too many
digits to be reported.

There is one lemma for each operation on integers, such as `Quantity.rem_int` and
`Quantity.pow_int`, and the evaluation follows the rules of the tree (`Arith.HasInteger.value_eq`).
-/

namespace DiceNotation

/-! ## Operations -/

/-- The remainder of division with a quotient rounded down: it lies between zero and the divisor,
and has the sign of the divisor if it is not zero. -/
def IsFlooredRemainder (a b r : Int) : Prop :=
  (∃ q, r + b * q = a) ∧ (0 ≤ r ∧ r < b ∨ b < r ∧ r ≤ 0)

theorem IsFlooredRemainder.ne_zero {a b r : Int} (h : IsFlooredRemainder a b r) : b ≠ 0 := by
  rintro rfl
  rcases h.2 with ⟨hlow, hhigh⟩ | ⟨hlow, hhigh⟩
  · exact absurd hlow (Int.not_le.2 hhigh)
  · exact absurd hhigh (Int.not_le.2 hlow)

/-- There is no other such remainder. -/
theorem IsFlooredRemainder.fmod_eq {a b r : Int} (h : IsFlooredRemainder a b r) :
    a.fmod b = r := by
  obtain ⟨⟨q, hq⟩, hbetween⟩ := h
  rcases hbetween with hpositive | hnegative
  · have hb : 0 < b := Int.lt_of_le_of_lt hpositive.1 hpositive.2
    exact ((Int.fdiv_fmod_unique hb).2 ⟨hq, hpositive⟩).2
  · have hb : b < 0 := Int.lt_of_lt_of_le hnegative.1 hnegative.2
    exact ((Int.fdiv_fmod_unique' hb).2 ⟨hq, hnegative⟩).2

namespace Quantity

variable {a b r : Int}

theorem rem_int (h : IsFlooredRemainder a b r) : (int a).rem (int b) = .ok (int r) := by
  have hrem : (int a).rem (int b) =
      if b = 0 then .fail .integerRemainderByZero else .ok (int (a.fmod b)) := rfl
  rw [hrem, if_neg h.ne_zero, h.fmod_eq]

/-- A power of operands within the limit is computed exactly. -/
theorem pow_int {n : Nat} (ha : a.natAbs ≤ 4000000) (hn : n ≤ 4000000) :
    (int a).pow (int n) = .ok (int (a ^ n)) := by
  have hbase : (int a).exceedsPowerLimit = .ok false :=
    congrArg Except.ok (decide_eq_false (Nat.not_lt.2 ha))
  have hexponent : (int n).exceedsPowerLimit = .ok false := by
    rw [exceedsPowerLimit, Int.natAbs_natCast]
    exact congrArg Except.ok (decide_eq_false (Nat.not_lt.2 hn))
  have hwithin : (int a).powWithinLimit (int n) = .ok (int (a ^ n)) := by
    rw [powWithinLimit, pair]
    exact if_pos (Int.natCast_nonneg n)
  rw [pow, hbase, hexponent]
  exact hwithin

end Quantity

theorem natAbs_lt_natPow_iff {n : Int} {k : Nat} : n.natAbs < natPow 10 k ↔ |n| < 10 ^ k := by
  rw [natPow_eq, Int.abs_eq_natAbs]
  exact_mod_cast Iff.rfl

/-- An integer is reported if it has at most a thousand digits. -/
theorem Number.ofQuantity_int (v : Int) :
    Number.ofQuantity (.int v) = if |v| < 10 ^ 1000 then .ok (.int v) else .error .tooLarge := by
  have hlimit : |v| < 10 ^ 1000 ↔ ¬resultLimit ≤ v.natAbs := by
    rw [← natAbs_lt_natPow_iff, resultLimit_eq, Nat.not_le]
  rw [ofQuantity]
  by_cases hlarge : resultLimit ≤ v.natAbs
  · rw [if_pos hlarge, if_neg fun h => hlimit.1 h hlarge]
  · rw [if_neg hlarge, if_pos (hlimit.2 hlarge)]

/-- A whole double is reported as the integer that it is equal to. -/
theorem Number.ofQuantity_real {x : Double} {n : Int} (h : x.toInt? = some n) :
    Number.ofQuantity (.real x) = .ok (.int n) := by
  cases x with
  | nan => cases h
  | infinite negative => cases h
  | finite negative m e =>
    rw [ofQuantity, h]
    rfl

namespace Arith

/-! ## Integers of trees -/

/-- The tree has the integer for its value, if every slot has an integer. There is no rule for
division. -/
inductive HasInteger (number : Nat → Int) : Arith → Int → Prop
  | slot (position : Nat) : HasInteger number (.slot position) (number position)
  | literal (n : Nat) : HasInteger number (.literal n) n
  | plus {t : Arith} {a : Int} : HasInteger number t a → HasInteger number (.signed .plus t) a
  | minus {t : Arith} {a : Int} : HasInteger number t a → HasInteger number (.signed .minus t) (-a)
  | add {left right : Arith} {a b : Int} : HasInteger number left a → HasInteger number right b →
    HasInteger number (.binary .add left right) (a + b)
  | sub {left right : Arith} {a b : Int} : HasInteger number left a → HasInteger number right b →
    HasInteger number (.binary .sub left right) (a - b)
  | mul {left right : Arith} {a b : Int} : HasInteger number left a → HasInteger number right b →
    HasInteger number (.binary .mul left right) (a * b)
  | rem {left right : Arith} {a b r : Int} : HasInteger number left a →
    HasInteger number right b → IsFlooredRemainder a b r →
      HasInteger number (.binary .rem left right) r
  | pow {left right : Arith} {a : Int} {n : Nat} : HasInteger number left a →
    HasInteger number right n → a.natAbs ≤ 4000000 → n ≤ 4000000 →
      HasInteger number (.binary .pow left right) (a ^ n)

variable {t : Arith} {number : Nat → Int} {scope : Scope} {v : Int}

/-- The value of the tree is the integer. -/
theorem HasInteger.value_eq (h : t.HasInteger number v) :
    t.value (fun position => .int (number position)) = .ok (.int v) := by
  induction h with
  | slot position => rfl
  | literal n => rfl
  | plus _ ih => simp only [value, ih, Sign.apply]
  | minus _ ih => simp only [value, ih, Sign.apply, Quantity.neg]
  | add _ _ ihleft ihright =>
    simp only [value, ihleft, ihright]
    rfl
  | sub _ _ ihleft ihright =>
    simp only [value, ihleft, ihright]
    rfl
  | mul _ _ ihleft ihright =>
    simp only [value, ihleft, ihright]
    rfl
  | rem _ _ hr ihleft ihright =>
    simp only [value, ihleft, ihright, Operation.apply, Quantity.rem_int hr]
    rfl
  | pow _ _ ha hn ihleft ihright =>
    simp only [value, ihleft, ihright, Operation.apply, Quantity.pow_int ha hn]
    rfl

/-! ## Parts -/

/-- The tree and all the trees that it is built from. -/
def parts : Arith → List Arith
  | .slot position => [.slot position]
  | .literal n => [.literal n]
  | .signed sign t => .signed sign t :: t.parts
  | .binary operation left right => .binary operation left right :: (left.parts ++ right.parts)

theorem slots_subset_of_mem_parts : ∀ part ∈ t.parts, part.slots ⊆ t.slots := by
  induction t with
  | slot position => exact List.forall_mem_singleton.2 (List.Subset.refl _)
  | literal n => exact List.forall_mem_singleton.2 (List.Subset.refl _)
  | signed sign t ih => exact List.forall_mem_cons.2 ⟨List.Subset.refl _, ih⟩
  | binary operation left right ihleft ihright =>
    refine List.forall_mem_cons.2 ⟨List.Subset.refl _, List.forall_mem_append.2 ⟨?_, ?_⟩⟩
    · exact fun part hpart => List.subset_append_of_subset_left _ (ihleft part hpart)
    · exact fun part hpart => List.subset_append_of_subset_right _ (ihright part hpart)

theorem HasInteger.of_mem_parts_binary {operation : Operation} {left right : Arith}
    (h : (Arith.binary operation left right).HasInteger number v)
    (hleft : ∀ part ∈ left.parts, ∃ w, part.HasInteger number w)
    (hright : ∀ part ∈ right.parts, ∃ w, part.HasInteger number w) :
    ∀ part ∈ (Arith.binary operation left right).parts, ∃ w, part.HasInteger number w :=
  List.forall_mem_cons.2 ⟨⟨v, h⟩, List.forall_mem_append.2 ⟨hleft, hright⟩⟩

/-- If a tree has an integer, then every part of it has one. -/
theorem HasInteger.of_mem_parts (h : t.HasInteger number v) :
    ∀ part ∈ t.parts, ∃ w, part.HasInteger number w := by
  induction h with
  | slot position => exact List.forall_mem_singleton.2 ⟨_, .slot position⟩
  | literal n => exact List.forall_mem_singleton.2 ⟨_, .literal n⟩
  | plus h ih => exact List.forall_mem_cons.2 ⟨⟨_, .plus h⟩, ih⟩
  | minus h ih => exact List.forall_mem_cons.2 ⟨⟨_, .minus h⟩, ih⟩
  | add hleft hright ihleft ihright => exact of_mem_parts_binary (.add hleft hright) ihleft ihright
  | sub hleft hright ihleft ihright => exact of_mem_parts_binary (.sub hleft hright) ihleft ihright
  | mul hleft hright ihleft ihright => exact of_mem_parts_binary (.mul hleft hright) ihleft ihright
  | rem hleft hright hr ihleft ihright =>
    exact of_mem_parts_binary (.rem hleft hright hr) ihleft ihright
  | pow hleft hright ha hn ihleft ihright =>
    exact of_mem_parts_binary (.pow hleft hright ha hn) ihleft ihright

/-! ## Formulas -/

theorem IsBound.of_slots_subset {part : Arith} {number : Nat → Quantity}
    (h : t.IsBound scope number) (hslots : part.slots ⊆ t.slots) : part.IsBound scope number :=
  fun position hposition => h position (hslots hposition)

/-- A formula of integers without division is evaluated exactly. However the tree is written, if it
is compiled at all and has an integer for its value, then the formula yields this integer if it is
below `10 ^ 1000` in size, and is refused as too large otherwise. Every part of the formula is
evaluated to the integer that it has. The formula is taken to be shallow enough for the evaluator,
whose recursion has a limit that is not modelled. -/
theorem evaluate_eq_integer {place : Place} {words : List Word} {formula : Formula}
    (hwritten : t.IsWrittenAt place words)
    (hliterals : ∀ n ∈ t.literals, (decimalText n).length ≤ literalDigits)
    (hcompile : Formula.compile (joinWith [' '] (words.map Word.text)) = .ok formula)
    (hbound : t.IsBound scope fun position => .int (number position))
    (hv : t.HasInteger number v) :
    formula.evaluate scope = (if |v| < 10 ^ 1000 then .ok (.int v) else .fail .tooLarge) ∧
      formula.body = .value t.tree ∧
      ∀ part ∈ t.parts, ∃ w, part.HasInteger number w ∧
        part.tree.evaluate formula.text scope = .ok (.int w) := by
  rw [hwritten.compile_eq hliterals] at hcompile
  split at hcompile
  · cases hcompile
    refine ⟨?_, rfl, fun part hpart => ?_⟩
    · rw [evaluate_eq_result _ hbound, result, hv.value_eq]
      dsimp only
      rw [Number.ofQuantity_int]
      by_cases hsmall : |v| < 10 ^ 1000
      · simp only [if_pos hsmall]
      · simp only [if_neg hsmall]
    · obtain ⟨w, hw⟩ := hv.of_mem_parts part hpart
      have hpartBound := hbound.of_slots_subset (slots_subset_of_mem_parts part hpart)
      exact ⟨w, hw, (evaluate_tree _ hpartBound).trans hw.value_eq⟩
  · cases hcompile

/-- A remainder of a negative number by a negative divisor. -/
def negativeRemainder : Arith :=
  .binary .rem (.signed .minus (.binary .pow (.slot 0) (.literal 2)))
    (.binary .sub (.slot 1) (.literal 10))

/-- A power that is ten times as large as the largest one that is reported. -/
def largePower : Arith :=
  .binary .mul (.binary .pow (.slot 0) (.literal 999)) (.slot 0)

theorem evaluate_negativeRemainder :
    negativeRemainder.text minimal = "- $0 ^ 2 % ( $1 - 10 )".toList ∧
      (∃ formula, Formula.compile (negativeRemainder.text minimal) = .ok formula ∧
        formula.evaluate (.ofList [(slotName 0, .int 5), (slotName 1, .int 3)]) =
          .ok (.int (-4))) ∧
      ∃ formula, Formula.compile (largePower.text minimal) = .ok formula ∧
        formula.evaluate (.ofList [(slotName 0, .int 10)]) = .fail .tooLarge := by
  refine ⟨by cbv, ?_, ?_⟩
  · have hliterals : ∀ n ∈ negativeRemainder.literals, (decimalText n).length ≤ literalDigits := by
      decide
    have hcompile : Formula.compile (negativeRemainder.text minimal) = _ :=
      compile_text_eq hliterals (by decide)
    have hbound : negativeRemainder.IsBound
        (.ofList [(slotName 0, .int 5), (slotName 1, .int 3)])
        fun position => .int (if position = 0 then 5 else 3) := by decide
    have hv : negativeRemainder.HasInteger (fun position => if position = 0 then 5 else 3) (-4) :=
      .rem (.minus (.pow (.slot 0) (.literal 2) (by decide) (by decide)))
        (.sub (.slot 1) (.literal 10)) ⟨⟨3, by decide⟩, .inr (by decide)⟩
    have hsmall : |(-4 : Int)| < 10 ^ 1000 :=
      calc |(-4 : Int)| < 10 ^ 1 := by decide
        _ ≤ 10 ^ 1000 := pow_le_pow_right₀ (by decide) (by decide)
    obtain ⟨hevaluate, -⟩ := evaluate_eq_integer (isWrittenAt_words minimal negativeRemainder)
      hliterals hcompile hbound hv
    exact ⟨_, hcompile, hevaluate.trans (if_pos hsmall)⟩
  · have hliterals : ∀ n ∈ largePower.literals, (decimalText n).length ≤ literalDigits := by
      decide
    have hcompile : Formula.compile (largePower.text minimal) = _ :=
      compile_text_eq hliterals (by decide)
    have hbound : largePower.IsBound (.ofList [(slotName 0, .int 10)]) fun _ => .int 10 := by
      decide
    have hv : largePower.HasInteger (fun _ => 10) (10 ^ 999 * 10) :=
      .mul (.pow (.slot 0) (.literal 999) (by decide) (by decide)) (.slot 0)
    have hlarge : ¬|(10 : Int) ^ 999 * 10| < 10 ^ 1000 := by
      rw [← pow_succ, abs_of_nonneg (pow_nonneg (by decide) 1000)]
      exact lt_irrefl _
    obtain ⟨hevaluate, -⟩ := evaluate_eq_integer (isWrittenAt_words minimal largePower)
      hliterals hcompile hbound hv
    exact ⟨_, hcompile, hevaluate.trans (if_neg hlarge)⟩

end Arith

end DiceNotation
