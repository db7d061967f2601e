import DiceNotation.Formula.Evaluation

/-!
# Where evaluation breaks down

An evaluation is meant to yield a number or to fail for a reason that is reported. Here are the only
two ways in which it does neither, for any formula and any values of its names:

* a remainder or a rounded quotient is taken of complex numbers;
* a power is refused, and an operand of it has too many digits for the report to be written.

What breaks down is said apart from the evaluation, and the evaluation breaks down just then:

* `Operation.BreaksDown`: the operands that make an operation break down
    (`Operation.apply_eq_broken_iff`);
* `Tree.BreaksDown`: the trees whose evaluation comes to such an operation, which is not so if
    another failure is met before it (`Tree.evaluate_eq_broken_iff`).

Every other operation is sound (`Arithmetic.IsSound`), since what brings two numbers to one kind is.
-/

namespace DiceNotation

variable {why : Breakdown}

/-! ## Operations that never break down -/

/-- The outcome is a value or a reported failure. -/
def Arithmetic.IsSound {α : Type} (outcome : Arithmetic α) : Prop :=
  ∀ why, outcome ≠ .error (.broken why)

namespace Arithmetic

variable {α β : Type}

theorem isSound_ok (value : α) : IsSound (.ok value : Arithmetic α) :=
  fun _ => nofun

theorem isSound_fail (error : ArithmeticError) : IsSound (fail error : Arithmetic α) :=
  fun _ => nofun

/-- A sound failure stays one when it is passed on. -/
theorem IsSound.error {outcome : Arithmetic α} {e : Failure ArithmeticError} (h : outcome.IsSound)
    (he : outcome = .error e) : IsSound (.error e : Arithmetic β) := by
  rintro why ⟨⟩
  exact h why he

theorem IsSound.map {outcome : Arithmetic α} (h : outcome.IsSound) (f : α → β) :
    IsSound (Except.map f outcome) := by
  cases outcome with
  | error e => exact h.error rfl
  | ok value => exact isSound_ok _

/-- An operation that breaks down in one way under a condition, and is sound otherwise, breaks down
exactly in this way and under this condition. -/
theorem eq_broken_iff {outcome : Arithmetic α} {condition : Prop} {reason : Breakdown}
    (hbroken : condition → outcome = .error (.broken reason))
    (hsound : ¬condition → outcome.IsSound) :
    outcome = .error (.broken why) ↔ condition ∧ why = reason := by
  by_cases h : condition
  · rw [hbroken h]
    constructor
    · rintro ⟨⟩
      exact ⟨h, rfl⟩
    · rintro ⟨-, rfl⟩
      rfl
  · exact ⟨fun hwhy => absurd hwhy (hsound h why), fun hwhy => absurd hwhy.1 h⟩

end Arithmetic

open Arithmetic

namespace Quantity

theorem isSound_doubleOfInt (n : Int) : (doubleOfInt n).IsSound := by
  rw [doubleOfInt]
  split
  · exact isSound_ok _
  · exact isSound_fail _

theorem isSound_toComplex (a : Quantity) : a.toComplex.IsSound := by
  cases a with
  | int n => exact (isSound_doubleOfInt n).map _
  | real x => exact isSound_ok _
  | complex z => exact isSound_ok _

theorem isSound_pair (a b : Quantity) : (pair a b).IsSound := by
  rw [pair.eq_def]
  split
  · exact isSound_ok _
  · exact (isSound_doubleOfInt _).map _
  · exact (isSound_doubleOfInt _).map _
  · exact isSound_ok _
  · split
    · exact isSound_ok _
    · rename_i h
      exact (isSound_toComplex _).error h
    · rename_i h _
      exact (isSound_toComplex _).error h

section Pairs

variable {onInts : Int → Int → Arithmetic Quantity} {onReals : Double → Double → Arithmetic Quantity}
  {onComplexes : Complex → Complex → Arithmetic Quantity}

/-- What is true of the outcome for a pair of every kind is true of what is done with two numbers. -/
theorem holds_of_pair (holds : Arithmetic Quantity → Prop) {a b : Quantity}
    (herror : ∀ e, pair a b = .error e → holds (.error e)) (hints : ∀ m n, holds (onInts m n))
    (hreals : ∀ x y, pair a b = .ok (.reals x y) → holds (onReals x y))
    (hcomplexes : ∀ z w, pair a b = .ok (.complexes z w) → holds (onComplexes z w)) :
    holds (match pair a b with
      | .error e => .error e
      | .ok (.ints m n) => onInts m n
      | .ok (.reals x y) => onReals x y
      | .ok (.complexes z w) => onComplexes z w) := by
  cases h : pair a b with
  | error e => exact herror e h
  | ok numbers =>
    cases numbers with
    | ints m n => exact hints m n
    | reals x y => exact hreals x y h
    | complexes z w => exact hcomplexes z w h

/-- What is done with a pair of numbers of one kind is sound if it is so for every kind. -/
theorem isSound_of_pair (a b : Quantity) (hints : ∀ m n, (onInts m n).IsSound)
    (hreals : ∀ x y, (onReals x y).IsSound)
    (hcomplexes : ∀ z w, pair a b = .ok (.complexes z w) → (onComplexes z w).IsSound) :
    IsSound (match pair a b with
      | .error e => .error e
      | .ok (.ints m n) => onInts m n
      | .ok (.reals x y) => onReals x y
      | .ok (.complexes z w) => onComplexes z w) :=
  holds_of_pair IsSound (fun _ h => (isSound_pair a b).error h) hints (fun x y _ => hreals x y)
    hcomplexes

end Pairs

theorem isSound_add (a b : Quantity) : (a.add b).IsSound :=
  isSound_of_pair a b (fun _ _ => isSound_ok _) (fun _ _ => isSound_ok _) fun _ _ _ => isSound_ok _

theorem isSound_sub (a b : Quantity) : (a.sub b).IsSound :=
  isSound_of_pair a b (fun _ _ => isSound_ok _) (fun _ _ => isSound_ok _) fun _ _ _ => isSound_ok _

theorem isSound_mul (a b : Quantity) : (a.mul b).IsSound :=
  isSound_of_pair a b (fun _ _ => isSound_ok _) (fun _ _ => isSound_ok _) fun _ _ _ => isSound_ok _

theorem isSound_divInts (a b : Int) : (divInts a b).IsSound := by
  simp only [divInts]
  split
  · exact isSound_fail _
  · split
    · exact isSound_ok _
    · exact isSound_fail _

theorem isSound_div (a b : Quantity) : (a.div b).IsSound := by
  refine isSound_of_pair a b isSound_divInts (fun x y => ?_) fun z w _ => ?_
  · split
    · exact isSound_fail _
    · exact isSound_ok _
  · split
    · exact isSound_ok _
    · exact isSound_fail _

theorem isSound_powComplex (z w : Complex) : (powComplex z w).IsSound := by
  rw [powComplex]
  split
  · exact isSound_fail _
  · split
    · exact isSound_fail _
    · exact isSound_ok _

theorem isSound_powPositive (negative : Bool) (x y : Double) :
    (powPositive negative x y).IsSound := by
  simp only [powPositive]
  split
  · exact isSound_fail _
  · exact isSound_ok _

theorem isSound_powReal (x y : Double) : (powReal x y).IsSound := by
  rw [powReal]
  split
  · exact isSound_ok _
  split
  · exact isSound_ok _
  split
  · exact isSound_ok _
  split
  · split
    · exact isSound_fail _
    · exact isSound_ok _
  split
  · split
    · exact isSound_powComplex _ _
    · exact isSound_powPositive _ _ _
  · exact isSound_powPositive _ _ _

theorem isSound_powWithinLimit (a b : Quantity) : (powWithinLimit a b).IsSound := by
  refine isSound_of_pair a b (fun m n => ?_) isSound_powReal fun z w _ => isSound_powComplex z w
  split
  · exact isSound_ok _
  · exact isSound_powReal _ _

/-! ## Remainders -/

/-- Numbers of which none is complex do not become complex to meet. -/
theorem pair_ne_complexes {a b : Quantity} (h : (a.isComplex || b.isComplex) = false)
    (z w : Complex) : pair a b ≠ .ok (.complexes z w) := by
  obtain ⟨ha, hb⟩ := Bool.or_eq_false_iff.1 h
  intro hpair
  rcases a with m | x | z <;> rcases b with n | y | w
  · cases hpair
  · rw [pair] at hpair
    cases hx : doubleOfInt m <;> rw [hx] at hpair <;> cases hpair
  · cases hb
  · rw [pair] at hpair
    cases hy : doubleOfInt n <;> rw [hy] at hpair <;> cases hpair
  · cases hpair
  · cases hb
  · cases ha
  · cases ha
  · cases ha

theorem isSound_rem {a b : Quantity} (h : (a.isComplex || b.isComplex) = false) :
    (a.rem b).IsSound := by
  rw [rem, h, if_neg Bool.false_ne_true]
  refine isSound_of_pair a b (fun m n => ?_) (fun x y => ?_) fun z w hpair => ?_
  · split
    · exact isSound_fail _
    · exact isSound_ok _
  · split
    · exact isSound_fail _
    · exact isSound_ok _
  · exact absurd hpair (pair_ne_complexes h z w)

theorem isSound_floorDiv {a b : Quantity} (h : (a.isComplex || b.isComplex) = false) :
    (a.floorDiv b).IsSound := by
  rw [floorDiv, h, if_neg Bool.false_ne_true]
  refine isSound_of_pair a b (fun m n => ?_) (fun x y => ?_) fun z w hpair => ?_
  · split
    · exact isSound_fail _
    · exact isSound_ok _
  · split
    · exact isSound_fail _
    · exact isSound_ok _
  · exact absurd hpair (pair_ne_complexes h z w)

theorem rem_eq_broken_iff (a b : Quantity) :
    a.rem b = .error (.broken why) ↔
      (a.isComplex || b.isComplex) = true ∧ why = .unsupportedOperands := by
  refine eq_broken_iff (fun h => ?_) fun h => isSound_rem (Bool.eq_false_iff.2 h)
  rw [rem, if_pos h]
  rfl

theorem floorDiv_eq_broken_iff (a b : Quantity) :
    a.floorDiv b = .error (.broken why) ↔
      (a.isComplex || b.isComplex) = true ∧ why = .unsupportedOperands := by
  refine eq_broken_iff (fun h => ?_) fun h => isSound_floorDiv (Bool.eq_false_iff.2 h)
  rw [floorDiv, if_pos h]
  rfl

/-! ## Refused powers -/

/-- The size of the number is that of a double. Only a complex number can be too large for that. -/
def HasSize : Quantity → Prop
  | .complex z => (z.abs.isInfinite && !z.hasInfinitePart) = false
  | _ => True

/-- An operand of a power that is compared with the limit has a size; otherwise this is reported. -/
theorem exceedsPowerLimit_cases (a : Quantity) :
    (a.HasSize ∧ ∃ exceeds, a.exceedsPowerLimit = .ok exceeds) ∨
      (¬a.HasSize ∧ a.exceedsPowerLimit = fail .complexSizeTooLarge) := by
  cases a with
  | int n => exact .inl ⟨trivial, _, rfl⟩
  | real x => exact .inl ⟨trivial, _, rfl⟩
  | complex z =>
    simp only [HasSize, exceedsPowerLimit]
    cases z.abs.isInfinite && !z.hasInfinitePart with
    | false => exact .inl ⟨rfl, _, rfl⟩
    | true => exact .inr ⟨nofun, rfl⟩

theorem powerLimit_lt_printableLimit : powerLimit < printableLimit := by decide +kernel

/-- An integer that cannot be written is no operand of a power. -/
theorem exceedsPowerLimit_of_not_isPrintable {a : Quantity} (h : a.isPrintable = false) :
    a.HasSize ∧ a.exceedsPowerLimit = .ok true := by
  cases a with
  | int n =>
    have hlimit : printableLimit ≤ n.natAbs := Nat.le_of_not_lt (of_decide_eq_false h)
    have hexceeds : powerLimit < n.natAbs :=
      Nat.lt_of_lt_of_le powerLimit_lt_printableLimit hlimit
    exact ⟨trivial, congrArg Except.ok (decide_eq_true hexceeds)⟩
  | real x => cases h
  | complex z => cases h

theorem not_isPrintable_pow : (int (intPow 9 5000)).isPrintable = false := by
  rw [isPrintable, decide_eq_false_iff_not, Nat.not_lt, natAbs_intPow]
  decide +kernel

/-- A power of the numbers is refused, but one of them cannot be written in the report. Such an
exponent does not count behind a base without a size, which is reported first. -/
def IsRefusedInVain (a b : Quantity) : Prop :=
  a.isPrintable = false ∨ a.HasSize ∧ b.isPrintable = false

variable {a b : Quantity}

theorem refuse_of_not_isPrintable (h : (a.isPrintable && b.isPrintable) = false) :
    pow.refuse a b = .error (.broken .unprintable) := by
  rw [pow.refuse, h]
  rfl

theorem pow_of_isRefusedInVain (h : IsRefusedInVain a b) :
    a.pow b = .error (.broken .unprintable) := by
  rcases h with ha | ⟨hsize, hb⟩
  · rw [pow, (exceedsPowerLimit_of_not_isPrintable ha).2]
    exact refuse_of_not_isPrintable (by rw [ha, Bool.false_and])
  · have hrefuse : pow.refuse a b = .error (.broken .unprintable) :=
      refuse_of_not_isPrintable (by rw [hb, Bool.and_false])
    rcases exceedsPowerLimit_cases a with ⟨-, exceeds, ha⟩ | ⟨hnot, -⟩
    · cases exceeds with
      | true =>
        rw [pow, ha]
        exact hrefuse
      | false =>
        rw [pow, ha, (exceedsPowerLimit_of_not_isPrintable hb).2]
        exact hrefuse
    · exact absurd hsize hnot

theorem isSound_pow (h : ¬IsRefusedInVain a b) : (a.pow b).IsSound := by
  obtain ⟨haprint, hbprint⟩ := not_or.1 h
  rcases exceedsPowerLimit_cases a with ⟨hsize, exceeds, ha⟩ | ⟨-, ha⟩
  · -- With a size of the base, both operands can be written.
    have hrefuse : (pow.refuse a b).IsSound := by
      rw [pow.refuse, eq_true_of_ne_false haprint,
        eq_true_of_ne_false fun hb => hbprint ⟨hsize, hb⟩]
      exact isSound_fail _
    cases exceeds with
    | true =>
      rw [pow, ha]
      exact hrefuse
    | false =>
      rcases exceedsPowerLimit_cases b with ⟨-, exceeds, hb⟩ | ⟨-, hb⟩
      · cases exceeds with
        | true =>
          rw [pow, ha, hb]
          exact hrefuse
        | false =>
          rw [pow, ha, hb]
          exact isSound_powWithinLimit a b
      · rw [pow, ha, hb]
        exact isSound_fail _
  · rw [pow, ha]
    exact isSound_fail _

theorem pow_eq_broken_iff (a b : Quantity) :
    a.pow b = .error (.broken why) ↔ IsRefusedInVain a b ∧ why = .unprintable :=
  eq_broken_iff pow_of_isRefusedInVain isSound_pow

end Quantity

/-! ## Operations and trees -/

/-- The operation breaks down on two numbers. -/
inductive Operation.BreaksDown (a b : Quantity) : Operation → Breakdown → Prop
  | rem : (a.isComplex || b.isComplex) = true → BreaksDown a b .rem .unsupportedOperands
  | floorDiv : (a.isComplex || b.isComplex) = true → BreaksDown a b .floorDiv .unsupportedOperands
  | pow : a.IsRefusedInVain b → BreaksDown a b .pow .unprintable

theorem Operation.apply_eq_broken_iff (operation : Operation) (a b : Quantity) :
    operation.apply a b = .error (.broken why) ↔ operation.BreaksDown a b why := by
  cases operation with
  | add => exact ⟨fun h => absurd h (Quantity.isSound_add a b why), nofun⟩
  | sub => exact ⟨fun h => absurd h (Quantity.isSound_sub a b why), nofun⟩
  | mul => exact ⟨fun h => absurd h (Quantity.isSound_mul a b why), nofun⟩
  | div => exact ⟨fun h => absurd h (Quantity.isSound_div a b why), nofun⟩
  | rem =>
    rw [apply, Quantity.rem_eq_broken_iff]
    constructor
    · rintro ⟨h, rfl⟩
      exact .rem h
    · rintro (h | _ | _)
      exact ⟨h, rfl⟩
  | floorDiv =>
    rw [apply, Quantity.floorDiv_eq_broken_iff]
    constructor
    · rintro ⟨h, rfl⟩
      exact .floorDiv h
    · rintro (_ | h | _)
      exact ⟨h, rfl⟩
  | pow =>
    rw [apply, Quantity.pow_eq_broken_iff]
    constructor
    · rintro ⟨h, rfl⟩
      exact .pow h
    · rintro (_ | _ | h)
      exact ⟨h, rfl⟩

theorem Arithmetic.toEvaluation_eq_broken_iff {α : Type} (outcome : Arithmetic α) :
    outcome.toEvaluation = .error (.broken why) ↔ outcome = .error (.broken why) := by
  rcases outcome with (error | breakdown) | value
  · exact ⟨nofun, nofun⟩
  · exact ⟨fun h => by cases h; rfl, fun h => by cases h; rfl⟩
  · exact ⟨nofun, nofun⟩

variable {formula : Text} {scope : Scope}

/-- The evaluation of the tree comes to an operation that breaks down. -/
inductive Tree.BreaksDown (formula : Text) (scope : Scope) : Tree → Breakdown → Prop
  | signed {sign : Sign} {operand : Tree} {why : Breakdown} :
    BreaksDown formula scope operand why → BreaksDown formula scope (.signed sign operand) why
  | left {operation : Operation} {left right : Tree} {why : Breakdown} :
    BreaksDown formula scope left why → BreaksDown formula scope (.binary operation left right) why
  | right {operation : Operation} {left right : Tree} {a : Quantity} {why : Breakdown} :
    left.evaluate formula scope = .ok a → BreaksDown formula scope right why →
      BreaksDown formula scope (.binary operation left right) why
  | operation {operation : Operation} {left right : Tree} {a b : Quantity} {why : Breakdown} :
    left.evaluate formula scope = .ok a → right.evaluate formula scope = .ok b →
      operation.BreaksDown a b why → BreaksDown formula scope (.binary operation left right) why

/-- An evaluation breaks down only by an operation that does, and always then. -/
theorem Tree.evaluate_eq_broken_iff (tree : Tree) :
    tree.evaluate formula scope = .error (.broken why) ↔ tree.BreaksDown formula scope why := by
  induction tree with
  | name text =>
    rw [evaluate]
    split
    · exact ⟨nofun, nofun⟩
    · exact ⟨nofun, nofun⟩
  | literal n => exact ⟨nofun, nofun⟩
  | tuple => exact ⟨nofun, nofun⟩
  | call callee _ => exact ⟨nofun, nofun⟩
  | signed sign operand ih =>
    rw [evaluate]
    constructor
    · intro h
      split at h
      · cases h
      · rename_i e hoperand
        cases h
        exact .signed (ih.1 hoperand)
    · rintro ⟨h⟩
      rw [ih.2 h]
  | binary operation left right ihleft ihright =>
    -- The right operand counts only if the left one has a value.
    rw [evaluate]
    constructor
    · intro h
      split at h
      · rename_i e hleft
        cases h
        exact .left (ihleft.1 hleft)
      · rename_i a hleft
        split at h
        · rename_i e hright
          cases h
          exact .right hleft (ihright.1 hright)
        · rename_i b hright
          rw [Arithmetic.toEvaluation_eq_broken_iff, Operation.apply_eq_broken_iff] at h
          exact .operation hleft hright h
    · rintro (_ | h | ⟨hleft, h⟩ | ⟨hleft, hright, h⟩)
      · rw [ihleft.2 h]
      · rw [hleft, ihright.2 h]
      · simp only [hleft, hright]
        rw [Arithmetic.toEvaluation_eq_broken_iff, Operation.apply_eq_broken_iff]
        exact h

/-- A formula breaks down as the tree that it asks the value of. -/
theorem Formula.evaluate_eq_broken_iff (formula : Formula) :
    formula.evaluate scope = .error (.broken why) ↔
      ∃ tree, formula.body = .value tree ∧ tree.BreaksDown formula.text scope why := by
  have hquantity : formula.evaluate scope = .error (.broken why) ↔
      formula.quantity scope = .error (.broken why) := by
    rw [evaluate]
    rcases formula.quantity scope with e | value
    · exact ⟨fun h => by cases h; rfl, fun h => by cases h; rfl⟩
    · refine ⟨fun h => ?_, nofun⟩
      dsimp only at h
      split at h <;> cases h
  rw [hquantity, quantity]
  cases formula.body with
  | value tree =>
    constructor
    · intro h
      exact ⟨tree, rfl, tree.evaluate_eq_broken_iff.1 h⟩
    · rintro ⟨_, ⟨⟩, h⟩
      exact tree.evaluate_eq_broken_iff.2 h
  | starred tree =>
    constructor
    · exact nofun
    · rintro ⟨_, ⟨⟩, _⟩

end DiceNotation
