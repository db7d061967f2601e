import DiceNotation.Proofs.Formula.Breakdown
import DiceNotation.Proofs.Number.Range

/-!
# Values on the way

A property of numbers is kept by evaluation (`IsKept`) if integers have it, signs keep it, and so do
the operations that are applied. If the values of the names have it, then every value that a formula
comes to on the way has it too (`Tree.holds_of_mem_parts`). There are two such properties:

* a double is one that double precision has (`isKept_isPrecise`);
* a number is not complex, as long as there are no powers (`isKept_not_isComplex`).

Operations other than powers keep both for the same reason: their operands meet in the wider of
their kinds, and the result is not of a wider kind (`Quantity.IsWithin`). The value of a formula
before it is made a number has whatever is kept (`Formula.holds_of_quantity`).
-/

namespace DiceNotation

/-! ## What operations yield -/

namespace Arithmetic

variable {α : Type} {holds : α → Prop}

/-- If there is a value, then it has the property. -/
def Yields (holds : α → Prop) (outcome : Arithmetic α) : Prop :=
  ∀ value, outcome = .ok value → holds value

theorem yields_ok {value : α} (h : holds value) : Yields holds (.ok value) := by
  rintro _ ⟨⟩
  exact h

theorem yields_error (e : Failure ArithmeticError) : Yields holds (.error e) :=
  fun _ => nofun

theorem yields_fail (error : ArithmeticError) : Yields holds (fail error) :=
  yields_error _

theorem toEvaluation_eq_ok_iff {outcome : Arithmetic α} {value : α} :
    outcome.toEvaluation = .ok value ↔ outcome = .ok value := by
  rcases outcome with (error | breakdown) | value'
  · exact ⟨nofun, nofun⟩
  · exact ⟨nofun, nofun⟩
  · exact ⟨fun h => by cases h; rfl, fun h => by cases h; rfl⟩

end Arithmetic

open Arithmetic

namespace Quantity

/-- If the number is a double, then it is one that double precision has. -/
def IsPrecise : Quantity → Prop
  | .real x => x.IsRepresentable
  | _ => True

/-- The third number is of no wider kind than the first two, and stays within double precision. -/
structure IsWithin (a b c : Quantity) : Prop where
  isPrecise : a.IsPrecise → c.IsPrecise
  isComplex_or : c.isComplex = true → (a.isComplex || b.isComplex) = true

variable {a b : Quantity} {x y : Double} {z w : Complex}

theorem isWithin_int (n : Int) : IsWithin a b (.int n) :=
  ⟨fun _ => trivial, nofun⟩

theorem isWithin_real (h : a.IsPrecise → x.IsRepresentable) : IsWithin a b (.real x) :=
  ⟨h, nofun⟩

/-- Only if one of two numbers is complex do they meet as complex ones. -/
theorem isWithin_complex (h : pair a b = .ok (.complexes z w)) (q : Complex) :
    IsWithin a b (.complex q) :=
  ⟨fun _ => trivial, fun _ => eq_true_of_ne_false fun hreal => pair_ne_complexes hreal z w h⟩

theorem isRepresentable_of_doubleOfInt {n : Int} (h : doubleOfInt n = .ok x) :
    x.IsRepresentable := by
  simp only [doubleOfInt] at h
  split at h
  · cases h
    exact Double.isRepresentable_ofInt n
  · cases h

/-- Numbers that meet as doubles stay within double precision. -/
theorem isRepresentable_of_pair (h : pair a b = .ok (.reals x y)) (ha : a.IsPrecise) :
    x.IsRepresentable := by
  rw [pair.eq_def] at h
  split at h
  · cases h
  · rename_i m y'
    cases hx : doubleOfInt m <;> rw [hx] at h <;> cases h
    exact isRepresentable_of_doubleOfInt hx
  · rename_i x' n
    cases hy : doubleOfInt n <;> rw [hy] at h <;> cases h
    exact ha
  · cases h
    exact ha
  · split at h <;> cases h

/-- What is done with a pair of numbers of one kind has a property if it is so for every kind. -/
theorem yields_of_pair {holds : Quantity → Prop} (a b : Quantity)
    {onInts : Int → Int → Arithmetic Quantity} {onReals : Double → Double → Arithmetic Quantity}
    {onComplexes : Complex → Complex → Arithmetic Quantity}
    (hints : ∀ m n, Yields holds (onInts m n))
    (hreals : ∀ x y, (a.IsPrecise → x.IsRepresentable) → Yields holds (onReals x y))
    (hcomplexes : ∀ z w, pair a b = .ok (.complexes z w) → Yields holds (onComplexes z w)) :
    Yields holds (match pair a b with
      | .error e => .error e
      | .ok (.ints m n) => onInts m n
      | .ok (.reals x y) => onReals x y
      | .ok (.complexes z w) => onComplexes z w) :=
  holds_of_pair (Yields holds) (fun e _ => yields_error e) hints
    (fun x y h => hreals x y (isRepresentable_of_pair h)) hcomplexes

theorem add_isWithin (a b : Quantity) : Yields (IsWithin a b) (a.add b) :=
  yields_of_pair a b (fun _ _ => yields_ok (isWithin_int _))
    (fun x y _ => yields_ok (isWithin_real fun _ => Double.isRepresentable_add x y))
    fun _ _ h => yields_ok (isWithin_complex h _)

theorem sub_isWithin (a b : Quantity) : Yields (IsWithin a b) (a.sub b) :=
  yields_of_pair a b (fun _ _ => yields_ok (isWithin_int _))
    (fun x y _ => yields_ok (isWithin_real fun _ => Double.isRepresentable_add x y.neg))
    fun _ _ h => yields_ok (isWithin_complex h _)

theorem mul_isWithin (a b : Quantity) : Yields (IsWithin a b) (a.mul b) :=
  yields_of_pair a b (fun _ _ => yields_ok (isWithin_int _))
    (fun x y _ => yields_ok (isWithin_real fun _ => Double.isRepresentable_mul x y))
    fun _ _ h => yields_ok (isWithin_complex h _)

theorem div_isWithin (a b : Quantity) : Yields (IsWithin a b) (a.div b) := by
  refine yields_of_pair a b (fun m n => ?_) (fun x y _ => ?_) fun z w h => ?_
  · simp only [divInts]
    split
    · exact yields_fail _
    · rename_i hn
      split
      · exact yields_ok (isWithin_real fun _ => Double.isRepresentable_ofQuotient m hn)
      · exact yields_fail _
  · split
    · exact yields_fail _
    · exact yields_ok (isWithin_real fun _ => Double.isRepresentable_div x y)
  · split
    · exact yields_ok (isWithin_complex h _)
    · exact yields_fail _

theorem rem_isWithin (a b : Quantity) : Yields (IsWithin a b) (a.rem b) := by
  rw [rem]
  split
  · exact yields_error _
  · refine yields_of_pair a b (fun m n => ?_) (fun x y hx => ?_) fun z w _ => yields_error _
    · split
      · exact yields_fail _
      · exact yields_ok (isWithin_int _)
    · split
      · exact yields_fail _
      · exact yields_ok (isWithin_real fun ha => (hx ha).floorRem y)

theorem floorDiv_isWithin (a b : Quantity) : Yields (IsWithin a b) (a.floorDiv b) := by
  rw [floorDiv]
  split
  · exact yields_error _
  · refine yields_of_pair a b (fun m n => ?_) (fun x y _ => ?_) fun z w _ => yields_error _
    · split
      · exact yields_fail _
      · exact yields_ok (isWithin_int _)
    · split
      · exact yields_fail _
      · exact yields_ok (isWithin_real fun _ => Double.isRepresentable_floorDiv x y)

/-! ## Powers -/

theorem powComplex_isPrecise (z w : Complex) : Yields IsPrecise (powComplex z w) := by
  rw [powComplex]
  split
  · exact yields_fail _
  · split
    · exact yields_fail _
    · exact yields_ok trivial

theorem powPositive_isPrecise (negative : Bool) (x y : Double) :
    Yields IsPrecise (powPositive negative x y) := by
  have hpower := Double.isRepresentable_viaFloat₂ Float.pow x y
  simp only [powPositive]
  split
  · exact yields_fail _
  · cases negative with
    | false => exact yields_ok hpower
    | true => exact yields_ok hpower.neg

theorem powReal_isPrecise (hx : x.IsRepresentable) (y : Double) :
    Yields IsPrecise (powReal x y) := by
  -- The base itself is handed on where it is one or zero.
  rw [powReal]
  split
  · exact yields_ok (Double.isRepresentable_ofInt 1)
  split
  · exact yields_ok trivial
  split
  · split
    · exact yields_ok hx
    · exact yields_ok trivial
  split
  · split
    · exact yields_fail _
    · split
      · exact yields_ok hx
      · exact yields_ok hx.abs
  split
  · split
    · exact powComplex_isPrecise _ _
    · exact powPositive_isPrecise _ _ _
  · exact powPositive_isPrecise _ _ _

theorem powWithinLimit_isPrecise (ha : a.IsPrecise) (b : Quantity) :
    Yields IsPrecise (powWithinLimit a b) := by
  refine yields_of_pair a b (fun m n => ?_) (fun x y hx => powReal_isPrecise (hx ha) y)
    fun z w _ => powComplex_isPrecise z w
  split
  · exact yields_ok trivial
  · exact powReal_isPrecise (Double.isRepresentable_ofInt m) _

theorem pow_isPrecise (ha : a.IsPrecise) (b : Quantity) : Yields IsPrecise (a.pow b) := by
  have hrefuse : Yields IsPrecise (pow.refuse a b) := by
    rw [pow.refuse]
    split
    · exact yields_fail _
    · exact yields_error _
  rw [pow.eq_def]
  split
  · exact yields_error _
  · exact hrefuse
  · split
    · exact yields_error _
    · exact hrefuse
    · exact powWithinLimit_isPrecise ha b

end Quantity

/-! ## What evaluation keeps -/

/-- The property holds of integers, and passes from operands to the results of signs and of the
given operations. -/
structure IsKept (holds : Quantity → Prop) (operations : List Operation) : Prop where
  int : ∀ n, holds (.int n)
  sign : ∀ (sign : Sign) {a : Quantity}, holds a → holds (sign.apply a)
  operation : ∀ operation ∈ operations, ∀ {a b : Quantity}, holds a → holds b →
    (operation.apply a b).Yields holds

theorem IsKept.mono {holds : Quantity → Prop} {operations more : List Operation}
    (h : IsKept holds more) (hsubset : operations ⊆ more) : IsKept holds operations :=
  ⟨h.int, h.sign, fun operation hoperation => h.operation operation (hsubset hoperation)⟩

theorem Operation.apply_isWithin {operation : Operation} (h : operation ≠ .pow) (a b : Quantity) :
    (operation.apply a b).Yields (Quantity.IsWithin a b) := by
  cases operation with
  | add => exact Quantity.add_isWithin a b
  | sub => exact Quantity.sub_isWithin a b
  | mul => exact Quantity.mul_isWithin a b
  | div => exact Quantity.div_isWithin a b
  | rem => exact Quantity.rem_isWithin a b
  | floorDiv => exact Quantity.floorDiv_isWithin a b
  | pow => exact absurd rfl h

/-- No operation leaves double precision. -/
theorem isKept_isPrecise (operations : List Operation) :
    IsKept Quantity.IsPrecise operations where
  int _ := trivial
  sign sign a ha := by
    cases sign with
    | plus => exact ha
    | minus =>
      cases a with
      | int n => trivial
      | real x => exact Double.IsRepresentable.neg ha
      | complex z => trivial
  operation operation _ a b ha _ := by
    by_cases hpow : operation = .pow
    · rw [hpow]
      exact Quantity.pow_isPrecise ha b
    · intro value hvalue
      exact (operation.apply_isWithin hpow a b value hvalue).isPrecise ha

/-- Only powers make complex numbers of others. -/
theorem isKept_not_isComplex {operations : List Operation} (h : .pow ∉ operations) :
    IsKept (fun a => a.isComplex = false) operations where
  int _ := rfl
  sign sign a ha := by
    cases sign with
    | plus => exact ha
    | minus =>
      cases a with
      | int n => rfl
      | real x => rfl
      | complex z => cases ha
  operation operation hoperation a b ha hb := by
    have hpow : operation ≠ .pow := fun heq => h (heq ▸ hoperation)
    intro value hvalue
    refine Bool.eq_false_iff.2 fun hcomplex => ?_
    have hwide := (operation.apply_isWithin hpow a b value hvalue).isComplex_or hcomplex
    rw [ha, hb] at hwide
    cases hwide

/-! ## Scopes and trees -/

/-- The property holds of the values of all names. -/
def Scope.All (holds : Quantity → Prop) (scope : Scope) : Prop :=
  ∀ name value, scope.value? name = some value → holds value

theorem Scope.all_ofList {holds : Quantity → Prop} {values : List (Text × Quantity)}
    (h : ∀ pair ∈ values, holds pair.2) : (ofList values).All holds := by
  intro name value hvalue
  obtain ⟨binding, hfind, rfl⟩ := Option.map_eq_some_iff.1 hvalue
  obtain ⟨pair, hpair, rfl⟩ := List.mem_map.1 (List.mem_reverse.1 (List.mem_of_find?_eq_some hfind))
  exact h pair hpair

namespace Tree

/-- The operations that are applied anywhere in a tree. -/
def operations : Tree → List Operation
  | .name _ => []
  | .literal _ => []
  | .signed _ operand => operand.operations
  | .binary operation left right => operation :: (left.operations ++ right.operations)
  | .tuple => []
  | .call callee => callee.operations

/-- The tree and all the trees that it is built from. -/
def parts : Tree → List Tree
  | .name text => [.name text]
  | .literal n => [.literal n]
  | .signed sign operand => .signed sign operand :: operand.parts
  | .binary operation left right => .binary operation left right :: (left.parts ++ right.parts)
  | .tuple => [.tuple]
  | .call callee => .call callee :: callee.parts

variable {holds : Quantity → Prop} {formula : Text} {scope : Scope} {tree : Tree}

theorem mem_parts (tree : Tree) : tree ∈ tree.parts := by
  cases tree <;> exact List.mem_cons_self

theorem operations_subset_of_mem_parts :
    ∀ part ∈ tree.parts, part.operations ⊆ tree.operations := by
  induction tree with
  | name text => exact List.forall_mem_singleton.2 (List.Subset.refl _)
  | literal n => exact List.forall_mem_singleton.2 (List.Subset.refl _)
  | signed sign operand ih => exact List.forall_mem_cons.2 ⟨List.Subset.refl _, ih⟩
  | binary operation left right ihleft ihright =>
    refine List.forall_mem_cons.2 ⟨List.Subset.refl _, List.forall_mem_append.2 ⟨?_, ?_⟩⟩
    · exact fun part hpart => List.subset_cons_of_subset _
        (List.subset_append_of_subset_left _ (ihleft part hpart))
    · exact fun part hpart => List.subset_cons_of_subset _
        (List.subset_append_of_subset_right _ (ihright part hpart))
  | tuple => exact List.forall_mem_singleton.2 (List.Subset.refl _)
  | call callee ih => exact List.forall_mem_cons.2 ⟨List.Subset.refl _, ih⟩

/-- What evaluation keeps is true of the value of a tree. -/
theorem holds_of_evaluate (hkept : IsKept holds tree.operations) (hscope : scope.All holds)
    {value : Quantity} (hvalue : tree.evaluate formula scope = .ok value) : holds value := by
  induction tree generalizing value with
  | name text =>
    rw [evaluate] at hvalue
    split at hvalue
    · rename_i hname
      cases hvalue
      exact hscope text _ hname
    · cases hvalue
  | literal n =>
    cases hvalue
    exact hkept.int n
  | signed sign operand ih =>
    rw [evaluate] at hvalue
    split at hvalue
    · rename_i hoperand
      cases hvalue
      exact hkept.sign sign (ih hkept hoperand)
    · cases hvalue
  | binary operation left right ihleft ihright =>
    rw [evaluate] at hvalue
    split at hvalue
    · cases hvalue
    · rename_i a hleft
      split at hvalue
      · cases hvalue
      · rename_i b hright
        have ha : holds a := by
          refine ihleft (hkept.mono ?_) hleft
          exact List.subset_cons_of_subset _ (List.subset_append_left _ _)
        have hb : holds b := by
          refine ihright (hkept.mono ?_) hright
          exact List.subset_cons_of_subset _ (List.subset_append_right _ _)
        exact hkept.operation operation List.mem_cons_self ha hb value
          (Arithmetic.toEvaluation_eq_ok_iff.1 hvalue)
  | tuple => cases hvalue
  | call callee _ => cases hvalue

/-- What evaluation keeps is true of every value on the way. -/
theorem holds_of_mem_parts (hkept : IsKept holds tree.operations) (hscope : scope.All holds) :
    ∀ part ∈ tree.parts, ∀ value, part.evaluate formula scope = .ok value → holds value :=
  fun part hpart _ => holds_of_evaluate (hkept.mono (operations_subset_of_mem_parts part hpart)) hscope

end Tree

/-- The tree of what a formula asks for. -/
def FormulaBody.tree : FormulaBody → Tree
  | .value tree => tree
  | .starred tree => tree

namespace Formula

variable {holds : Quantity → Prop} {formula : Formula} {scope : Scope}

/-- What evaluation keeps is true of the value of a formula. -/
theorem holds_of_quantity (hkept : IsKept holds formula.body.tree.operations)
    (hscope : scope.All holds) {value : Quantity} (hvalue : formula.quantity scope = .ok value) :
    holds value := by
  rw [quantity] at hvalue
  split at hvalue
  · rename_i tree hbody
    rw [hbody] at hkept
    exact Tree.holds_of_evaluate hkept hscope hvalue
  · cases hvalue

/-- What a formula yields is made of its value. -/
theorem exists_quantity_of_evaluate {number : Number} (h : formula.evaluate scope = .ok number) :
    ∃ value, formula.quantity scope = .ok value ∧ Number.ofQuantity value = .ok number := by
  rw [evaluate] at h
  split at h
  · cases h
  · rename_i value hvalue
    split at h
    · rename_i hnumber
      cases h
      exact ⟨value, hvalue, hnumber⟩
    · cases h

end Formula

end DiceNotation
