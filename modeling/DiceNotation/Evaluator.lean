import DiceNotation.Number.Power
import DiceNotation.Text.Basic

/-!
# The evaluator of formulas

The notation leaves arithmetic to an evaluator of expressions that it takes as it is. What is known
of this evaluator and is no arithmetic is gathered here, as assumptions that the other modules use
by name: its limits, the words that it does not accept as names, and the wording of its refusals.

Two limits are not among them. The evaluator reads a formula on a stack of fixed size, and gives up
where that is used up, and it evaluates a formula by recursion, down to a depth that is up to the
machine and its settings. Neither is modelled: what is said here of reading formulas and of their
values is said of formulas that are shallow enough for both. Nearly two hundred powers that stand
one inside the other, each in its parentheses, are not, though that many parentheses are allowed
(`maxNesting`), and neither are chains of several hundred operators.
-/

namespace DiceNotation

/-! ## Limits -/

/-- The greatest size of the operands of a power. -/
def powerLimit : Nat := 4000000

/-- The most parentheses that may be open at once. This limit is about parentheses alone: what else
stands one inside the other may use up the stack of the reader before. -/
def maxNesting : Nat := 200

/-- The most digits of a number in a formula. -/
def literalDigits : Nat := 4300

/-- Integers of this size or more have too many digits to be written in a report: `10 ^ 4300`, in
small powers, which are easier to evaluate. -/
def printableLimit : Nat := natPow (natPow 10 100) 43

theorem printableLimit_eq : printableLimit = natPow 10 4300 := by decide +kernel

/-! ## Words -/

/-- The words that look like names but are none. -/
def reservedWords : List Text :=
  ["False", "None", "True", "and", "as", "assert", "async", "await", "break", "class", "continue",
    "def", "del", "elif", "else", "except", "finally", "for", "from", "global", "if", "import",
    "in", "is", "lambda", "nonlocal", "not", "or", "pass", "raise", "return", "try", "while",
    "with", "yield"].map String.toList

/-! ## Refusals -/

/-- The wording for a name without a value, with the formula in the form in which it is read. -/
def unknownNameWording (name formula : Text) : String :=
  "'" ++ String.ofList name ++ "' is not defined for expression '" ++ String.ofList formula ++ "'"

/-- The wording for something with a name that is called. -/
def unknownFunctionWording (name formula : Text) : String :=
  "Function '" ++ String.ofList name ++ "' not defined, for expression '" ++
    String.ofList formula ++ "'."

/-- The wording for something without a name that is called. -/
def computedFunctionWording : String :=
  "Lambda Functions not implemented"

/-- The wording for a kind of expression that is read but not evaluated. -/
def unavailableWording (kind : String) : String :=
  "Sorry, " ++ kind ++ " is not available in this evaluator"

/-- The wording for a power with an operand beyond the limit, with both operands as they are
written. -/
def refusedPowerWording (base exponent : Text) : String :=
  "Sorry! I don't want to evaluate " ++ String.ofList base ++ " ** " ++ String.ofList exponent

end DiceNotation
