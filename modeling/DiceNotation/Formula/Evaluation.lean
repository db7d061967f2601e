import DiceNotation.Number.Quantity
import DiceNotation.Formula.Tree

/-!
# Evaluating formulas

A formula is compiled once (`Formula.compile`) and evaluated as often as there are values for its
names (`Formula.evaluate`). Operands are evaluated from left to right, and the first failure ends
the evaluation. Parentheses without content, calls and a leading star can be written, but not
evaluated.

The result of a formula is a `Number`: an integer below `10 ^ 1000` in size, or a finite double that
is no whole number, since whole doubles become integers (`Number.ofQuantity`).
-/

namespace DiceNotation

/-- Why a formula has no result. -/
inductive FormulaError
  /-- The formula is blank. -/
  | blank
  /-- The formula does not have the structure of one. -/
  | malformed
  /-- A name has no value; `formula` is the prepared text. -/
  | unknownName (name formula : Text)
  /-- Something is called that has a name; `formula` is the prepared text. -/
  | unknownFunction (name formula : Text)
  /-- Something is called that has no name. -/
  | computedFunction
  /-- Parentheses have no content. -/
  | tuple
  /-- The formula begins with a star. -/
  | starred
  /-- An operation has no result. -/
  | arithmetic (error : ArithmeticError)
  /-- The result is infinite, or no number at all. -/
  | notFinite
  /-- The result is an integer with too many digits. -/
  | tooLarge
  /-- The result is complex. -/
  | complexResult
  deriving DecidableEq

/-- What the wording of most errors of formulas begins with. -/
def invalidFormula (reason : String) : String :=
  "Invalid formula: " ++ reason

/-- The wording of the error. -/
def FormulaError.message : FormulaError → String
  | .blank => invalidFormula "nothing to evaluate"
  | .malformed => invalidFormula "<syntax error>"
  | .unknownName name formula => invalidFormula (unknownNameWording name formula)
  | .unknownFunction name formula => invalidFormula (unknownFunctionWording name formula)
  | .computedFunction => invalidFormula computedFunctionWording
  | .tuple => invalidFormula (unavailableWording "Tuple")
  | .starred => invalidFormula (unavailableWording "Starred")
  | .arithmetic error => invalidFormula error.message
  | .notFinite => invalidFormula "result is not a finite number"
  | .tooLarge => invalidFormula "result is too large"
  | .complexResult => "Formula did not produce a number: <complex>"

/-- The result of a formula. -/
inductive Number
  | int (n : Int)
  | real (x : Double)
  deriving DecidableEq

/-- The number as text. -/
def Number.text : Number → Text
  | .int n => integerText n
  | .real x => realLayout.write x

/-- Integers of this size or more are refused as results: `10 ^ 1000`, in small powers, which are
easier to evaluate. -/
def resultLimit : Nat := natPow (natPow 10 100) 10

theorem resultLimit_eq : resultLimit = natPow 10 1000 := by decide +kernel

/-- The number that a quantity is reported as. -/
def Number.ofQuantity : Quantity → Except FormulaError Number
  | .int n => if resultLimit ≤ n.natAbs then .error .tooLarge else .ok (.int n)
  | .real x =>
    if !x.isFinite then .error .notFinite
    else
      match x.toInt? with
      | some n => .ok (.int n)
      | none => .ok (.real x)
  | .complex _ => .error .complexResult

/-- The values that names stand for. Of several values for a name the first one counts. -/
structure Scope where
  bindings : List (Text × Quantity)
  deriving DecidableEq

namespace Scope

/-- The value that a name stands for. -/
def value? (scope : Scope) (name : Text) : Option Quantity :=
  (scope.bindings.find? fun binding => binding.1 == name).map (·.2)

/-- The scope of a list of slots or names with their values, of which the last one counts. -/
def ofList (values : List (Text × Quantity)) : Scope :=
  ⟨(values.map fun (slot, value) => (spellSlots slot, value)).reverse⟩

end Scope

/-- The outcome of evaluating a part of a formula. -/
abbrev Evaluation (α : Type) := Except (Failure FormulaError) α

/-- Fails for a reason that is reported. -/
def Evaluation.fail {α : Type} (error : FormulaError) : Evaluation α :=
  .error (.reported error)

/-- The outcome of an operation as that of evaluating a part of a formula. -/
def Arithmetic.toEvaluation {α : Type} : Arithmetic α → Evaluation α
  | .ok value => .ok value
  | .error (.reported error) => .fail (.arithmetic error)
  | .error (.broken breakdown) => .error (.broken breakdown)

/-- Applies an operation to two quantities. -/
def Operation.apply (operation : Operation) (a b : Quantity) : Arithmetic Quantity :=
  match operation with
  | .add => a.add b
  | .sub => a.sub b
  | .mul => a.mul b
  | .div => a.div b
  | .rem => a.rem b
  | .floorDiv => a.floorDiv b
  | .pow => a.pow b

/-- Applies a sign to a quantity. -/
def Sign.apply (sign : Sign) (a : Quantity) : Quantity :=
  match sign with
  | .plus => a
  | .minus => a.neg

/-- The failure of calling something. -/
def Tree.callError (formula : Text) : Tree → FormulaError
  | .name text => .unknownFunction text formula
  | _ => .computedFunction

/-- Evaluates a tree of the formula with the given prepared text. The recursion
has no limit here, so the tree is taken to be shallow enough for that of the evaluator. -/
def Tree.evaluate (formula : Text) (scope : Scope) : Tree → Evaluation Quantity
  | .name text =>
    match scope.value? text with
    | some value => .ok value
    | none => .fail (.unknownName text formula)
  | .literal n => .ok (.int n)
  | .signed sign operand =>
    match operand.evaluate formula scope with
    | .ok value => .ok (sign.apply value)
    | .error e => .error e
  | .binary operation left right =>
    match left.evaluate formula scope with
    | .error e => .error e
    | .ok a =>
      match right.evaluate formula scope with
      | .error e => .error e
      | .ok b => (operation.apply a b).toEvaluation
  | .tuple => .fail .tuple
  | .call callee => .fail (callee.callError formula)

/-- What a formula asks for. -/
inductive FormulaBody
  /-- The value of a tree. -/
  | value (tree : Tree)
  /-- The elements of a tree, by a star in front of it. -/
  | starred (tree : Tree)
  deriving DecidableEq

/-- What all the tokens of a formula together ask for. -/
def FormulaBody.ofTokens? (tokens : List Token) : Option FormulaBody :=
  if isWithinNesting 0 tokens then
    match tokens with
    | .star :: rest => (Tree.ofTokens? rest).map .starred
    | tokens => (Tree.ofTokens? tokens).map .value
  else none

/-- A formula that has been read. -/
structure Formula where
  /-- The prepared text. -/
  text : Text
  body : FormulaBody
  deriving DecidableEq

namespace Formula

/-- Reads a formula. -/
def compile (formula : Text) : Except FormulaError Formula :=
  let text := preparedText formula
  if (strip text).isEmpty then .error .blank
  else
    match (tokenize? (strip text)).bind FormulaBody.ofTokens? with
    | some body => .ok ⟨text, body⟩
    | none => .error .malformed

/-- The value of a formula before it is made a number. -/
def quantity (formula : Formula) (scope : Scope) : Evaluation Quantity :=
  match formula.body with
  | .value tree => tree.evaluate formula.text scope
  | .starred _ => .fail .starred

/-- Evaluates a formula in a scope. -/
def evaluate (formula : Formula) (scope : Scope) : Evaluation Number :=
  match formula.quantity scope with
  | .error e => .error e
  | .ok value =>
    match Number.ofQuantity value with
    | .ok number => .ok number
    | .error e => .fail e

end Formula

end DiceNotation
