import DiceNotation.Dice.Group
import DiceNotation.Formula.Evaluation

/-!
# The values of a request

A request speaks of values: dice groups, which are rolled, and constants. Each has a slot in the
formula of the request, named by its position.
-/

namespace DiceNotation

/-- A value of a request. -/
inductive Value
  | group (group : Group)
  | constant (n : Int)
  deriving DecidableEq

/-- The slot of the value at a position, counted from zero. -/
def slotName (position : Nat) : Text :=
  '$' :: decimalText position

/-- What is said of a constant. -/
def constantDescription (n : Int) : Text :=
  "(constant) ".toList ++ integerText n

namespace Value

/-- The value in notation. -/
def text : Value → Text
  | .group g => g.text
  | .constant n => integerText n

/-- The group that the value is, if it is one. -/
def group? : Value → Option Group
  | .group g => some g
  | .constant _ => none

/-- The number that the value contributes to the formula. -/
def quantity : Value → Quantity
  | .group g => .int g.total
  | .constant n => .int n

/-- The values with their slots. -/
def slots (values : List Value) : List (Text × Value) :=
  values.zipIdx.map fun (value, position) => (slotName position, value)

/-- The scope in which every slot has the number of its value. -/
def scope (values : List Value) : Scope :=
  .ofList ((slots values).map fun (name, value) => (name, value.quantity))

/-- Rolls the groups among the values, in order. If a roll fails, the groups before it keep their
throws and the values from it on stay as they are. -/
def rollAll : List Value → Source → Option RollError × List Value × Source
  | [], source => (none, [], source)
  | .constant n :: values, source =>
    let (error, rolled, last) := rollAll values source
    (error, .constant n :: rolled, last)
  | .group g :: values, source =>
    match g.rollDice source with
    | (.error error, after) => (some error, .group g :: values, after)
    | (.ok thrown, after) =>
      let (error, rolled, last) := rollAll values after
      (error, .group thrown :: rolled, last)

end Value

end DiceNotation
