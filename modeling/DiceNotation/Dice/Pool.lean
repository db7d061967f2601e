import DiceNotation.Dice.Outcome

/-!
# Rolling a pool of dice

The dice of a group are rolled one after the other until none is pending (`rollPending`). A die that
must be rolled again adds one die to those pending and is paid for from a budget of fifty; when that
is spent, a die stands as it fell. An exploding die adds one die, without limit.

The dice that were not rolled again form the pool. Ordered by value, with the order of rolling
between equals, the selection of the group cuts a slice out of it (`Selection.bounds`): the slice
counts, and the dice outside it are marked as dropped (`Throw.ofOutcomes`).
-/

namespace DiceNotation

/-- How many dice of one group may be rolled again. -/
def rerollBudget : Nat := 50

/-- Rolls until no die is pending. The outcomes are in the order of rolling, and exactly those are
marked as rolled again that the budget could pay for. -/
def rollPending (faces : Faces) (options : Options) (pending budget : Nat) (source : Source) :
    Except RollError (List Outcome) × Source :=
  match pending with
  | 0 => (.ok [], source)
  | pending + 1 =>
    match _h : faces.roll options source with
    | (.error e, after) => (.error e, after)
    | (.ok outcome, after) =>
      let again := outcome.rerolled && decide (0 < budget)
      let pending := pending + again.toNat + outcome.exploded.toNat
      match rollPending faces options pending (budget - again.toNat) after with
      | (.error e, last) => (.error e, last)
      | (.ok outcomes, last) => (.ok ({ outcome with rerolled := again } :: outcomes), last)
termination_by source.remaining
decreasing_by exact Faces.remaining_lt_of_roll _h

theorem rollPending_zero (faces : Faces) (options : Options) (budget : Nat) (source : Source) :
    rollPending faces options 0 budget source = (.ok [], source) := by
  rw [rollPending]

/-- To roll several dice is to roll the first of them, and then those that it leaves pending. -/
theorem rollPending_succ (faces : Faces) (options : Options) (pending budget : Nat)
    (source : Source) :
    rollPending faces options (pending + 1) budget source =
      match faces.roll options source with
      | (.error e, after) => (.error e, after)
      | (.ok outcome, after) =>
        let again := outcome.rerolled && decide (0 < budget)
        match rollPending faces options (pending + again.toNat + outcome.exploded.toNat)
            (budget - again.toNat) after with
        | (.error e, last) => (.error e, last)
        | (.ok outcomes, last) => (.ok ({ outcome with rerolled := again } :: outcomes), last) := by
  rw [rollPending]
  split
  · rename_i e after h
    rw [h]
  · rename_i outcome after h
    rw [h]

/-- A bound of a slice of a list with `size` elements: a negative bound counts from the end, and no
bound lies beyond either end. -/
def sliceBound (size : Nat) (bound : Int) : Nat :=
  min size (if bound < 0 then size + bound else bound).toNat

/-- The bound at which the selection cuts an ordered pool of `size` dice in two. -/
def Selection.cut (size : Nat) : Selection → Int
  | .keep .high count _ | .drop .high count _ => size - count
  | .keep .low count _ | .drop .low count _ => count

/-- Where the slice that counts begins and ends in an ordered pool of `size` dice: it lies on one
side of the cut. -/
def Selection.bounds (size : Nat) (selection : Selection) : Nat × Nat :=
  let bound := sliceBound size (selection.cut size)
  match selection with
  | .keep .high .. | .drop .low .. => (bound, size)
  | .keep .low .. | .drop .high .. => (0, bound)

/-- Where the slice that counts begins and ends under the options of a group: without a selection
every die counts. -/
def Options.bounds (options : Options) (size : Nat) : Nat × Nat :=
  match options.selection with
  | some selection => selection.bounds size
  | none => (0, size)

/-- The outcomes that were not rolled again, each with its position in the order of rolling. -/
def poolOf (outcomes : List Outcome) : List (Outcome × Nat) :=
  outcomes.zipIdx.filter fun member => !member.1.rerolled

/-- The pool in order of value; equals keep the order of rolling. -/
def rankedPool (outcomes : List Outcome) : List (Outcome × Nat) :=
  (poolOf outcomes).mergeSort fun a b => decide (a.1.value ≤ b.1.value)

/-- A throw of the dice of a group. -/
structure Throw where
  /-- Every die that was rolled, in order. -/
  outcomes : List Outcome
  /-- The sum of the dice that count. -/
  total : Int
  deriving DecidableEq

/-- The sum of the values of some outcomes. -/
def sumOfValues (members : List (Outcome × Nat)) : Int :=
  members.foldr (fun member total => member.1.value + total) 0

/-- Marks the outcomes at the given positions as dropped. -/
def markDropped (positions : List Nat) (outcomes : List Outcome) : List Outcome :=
  outcomes.zipIdx.map fun (outcome, i) => { outcome with dropped := positions.contains i }

/-- Marking leaves everything else about the outcomes as it was. -/
theorem map_markDropped {α : Type} (f : Outcome → α)
    (hf : ∀ (outcome : Outcome) (dropped : Bool), f { outcome with dropped := dropped } = f outcome)
    (positions : List Nat) (outcomes : List Outcome) :
    (markDropped positions outcomes).map f = outcomes.map f := by
  have hfst : (outcomes.zipIdx.map Prod.fst).map f = outcomes.map f := by
    rw [List.zipIdx_map_fst]
  rw [markDropped, List.map_map, ← hfst, List.map_map]
  exact List.map_congr_left fun member _ => hf member.1 _

/-- Applies the selection of a group to the outcomes of its dice. -/
def Throw.ofOutcomes (options : Options) (outcomes : List Outcome) : Throw :=
  let ranked := rankedPool outcomes
  let (start, stop) := options.bounds ranked.length
  let left := ranked.take start ++ ranked.drop stop
  { outcomes := markDropped (left.map (·.2)) outcomes
    total := sumOfValues ((ranked.take stop).drop start) }

/-- Rolls `count` dice, and as many more as the options add; a negative count rolls none. -/
def throwDice (count : Int) (faces : Faces) (options : Options) (source : Source) :
    Except RollError Throw × Source :=
  match rollPending faces options count.toNat rerollBudget source with
  | (.error e, after) => (.error e, after)
  | (.ok outcomes, after) => (.ok (Throw.ofOutcomes options outcomes), after)

end DiceNotation
