import DiceNotation.Text.Basic

/-!
# Reroll rules

A reroll rule compares a rolled value with a target and says whether the die has to be rolled again
(`RerollRule.holds`). A rule whose comparison is not one of the five known ones, as when a lone
equals sign is written, never asks for a reroll.
-/

namespace DiceNotation

/-- How a rolled value is compared with the target of a rule. -/
inductive Comparator
  | equal
  | below
  | atMost
  | above
  | atLeast
  deriving DecidableEq

/-- The comparison that a text stands for; no text at all asks for equality. -/
def Comparator.ofText? : Text → Option Comparator
  | [] => some .equal
  | ['<'] => some .below
  | ['<', '='] => some .atMost
  | ['>'] => some .above
  | ['>', '='] => some .atLeast
  | _ => none

/-- Whether `value` stands in the given order to `target`. -/
def Comparator.holds (comparator : Comparator) (value target : Int) : Bool :=
  match comparator with
  | .equal => value == target
  | .below => decide (value < target)
  | .atMost => decide (value ≤ target)
  | .above => decide (target < value)
  | .atLeast => decide (target ≤ value)

/-- A rule that says which values are rolled again. -/
structure RerollRule where
  /-- The comparison, unless the text written for it is unknown. -/
  comparator : Option Comparator
  /-- What a value is compared with. -/
  target : Int
  deriving DecidableEq

/-- The rule with the comparison that `comparison` stands for. -/
def RerollRule.ofText (comparison : Text) (target : Int) : RerollRule :=
  ⟨Comparator.ofText? comparison, target⟩

/-- Whether the rule asks to roll a die again that shows `value`. -/
def RerollRule.holds (rule : RerollRule) (value : Int) : Bool :=
  match rule.comparator with
  | some comparator => comparator.holds value rule.target
  | none => false

end DiceNotation
