import DiceNotation.Dice.Pool

/-!
# Dice groups

A dice group is a number of equal dice with their options, such as `4d6k3`. It is built from the
three pieces of its notation (`Group.create`), which are checked in order: the count, the faces, the
options, and whether the selection leaves dice to count. The first fault is kept with the group, and
what was read before it stays in the group, so that the group can still be shown. Only a group
without a fault can be rolled (`Group.roll`).
-/

namespace DiceNotation

/-- The largest number of dice in a group. -/
def maxDice : Nat := 999

/-- The most significant digits of a count of dice or of a number of faces. -/
def groupDigits : Nat := 9

/-- Why a group cannot be rolled. -/
inductive GroupError
  /-- The count has too many significant digits. -/
  | countTooLong
  /-- The count is no number, or zero. -/
  | noDice
  /-- The count is above the largest one. -/
  | tooManyDice (count : Nat)
  /-- The number of faces has too many significant digits. -/
  | facesTooLong
  /-- There is at most one face. -/
  | tooFewFaces
  /-- There is no such die. -/
  | unknownDie (text : Text)
  /-- The options were not understood. -/
  | badOptions (text : Text) (error : OptionsError)
  /-- As many dice are dropped as there are, or more. -/
  | dropsAll (count dice : Nat)
  /-- More dice are kept than there are. -/
  | keepsMore (count dice : Nat)
  deriving DecidableEq

/-- The wording of the fault. -/
def GroupError.message : GroupError → String
  | .countTooLong => "Too many dice (max 999)"
  | .noDice => "Invalid number of dice"
  | .tooManyDice count => "Too many dice: " ++ String.ofList (decimalText count) ++ " (max 999)"
  | .facesTooLong => "Too many faces (max 9 digits)"
  | .tooFewFaces => "You must have at least 2 faces to roll dice"
  | .unknownDie text => "Invalid dice type: " ++ String.ofList text
  | .badOptions text error =>
    "Invalid options (" ++ String.ofList text ++ "): " ++ error.message
  | .dropsAll count dice =>
    "Cannot drop " ++ String.ofList (decimalText count) ++ " dice when only " ++
      String.ofList (decimalText dice) ++ " are being rolled."
  | .keepsMore count dice =>
    "Cannot keep " ++ String.ofList (decimalText count) ++ " dice when only " ++
      String.ofList (decimalText dice) ++ " are being rolled."

/-- A piece of notation that looks like a number but holds a character that denotes no digit. -/
structure UndefinedNumber where
  /-- The piece. -/
  text : Text
  deriving DecidableEq

/-- A group of equal dice. -/
structure Group where
  /-- How many dice are rolled. -/
  dice : Nat
  /-- The faces of the dice; as long as they are not understood, the word for them. -/
  faces : Faces
  /-- The options of the group. -/
  options : Options
  /-- The dice of the last roll. -/
  outcomes : List Outcome := []
  /-- The total of the last roll. -/
  total : Int := 0
  /-- The fault of the group, if it has one. -/
  error : Option GroupError := none
  deriving DecidableEq

namespace Group

/-- Reads a count of dice. The count is kept even if it is refused; a text that gives none counts
as zero. -/
def readCount (text : Text) : Nat × Option GroupError :=
  match Numeral.read groupDigits text with
  | .tooLong => (0, some .countTooLong)
  | .word => (0, some .noDice)
  | .value n =>
    (n, if n < 1 then some .noDice else if maxDice < n then some (.tooManyDice n) else none)

/-- Reads the faces of a die. -/
def readFaces (text : Text) : Except GroupError Faces :=
  match Numeral.read groupDigits text with
  | .tooLong => .error .facesTooLong
  | .word => if text == fudgeFaces then .ok (.word fudgeFaces) else .error (.unknownDie text)
  | .value n => if n < 2 then .error .tooFewFaces else .ok (.number n)

/-- The fault of the options of a group of `dice` dice, if they have one. They may drop fewer dice
than there are, and keep as many. -/
def optionsFault? (options : Options) (dice : Nat) : Option GroupError :=
  match options.error with
  | some error => some (.badOptions options.text error)
  | none =>
    if 0 < options.dropped ∧ dice ≤ options.dropped then some (.dropsAll options.dropped dice)
    else if dice < options.kept then some (.keepsMore options.kept dice)
    else none

/-- The text that a count is read from: an empty one stands for one die. -/
def countText (count : Text) : Text :=
  if count.isEmpty then ['1'] else count

/-- Builds a group from the text of its count, its faces and its options, where every number that
is read denotes one. -/
def assemble (count faces options : Text) : Group :=
  let options := Options.parse options
  match readCount (countText count) with
  | (dice, some error) =>
    { dice := dice, faces := .word faces, options := options, error := some error }
  | (dice, none) =>
    match readFaces faces with
    | .error error =>
      { dice := dice, faces := .word faces, options := options, error := some error }
    | .ok die =>
      { dice := dice, faces := die, options := options, error := optionsFault? options dice }

/-- Builds a group from the text of its count, its faces and its options. This breaks down on the
first number that is read but denotes none; the faces are read only if the count is accepted. -/
def create (count faces options : Text) : Except UndefinedNumber Group :=
  if isUndefinedNumeral groupDigits count then .error ⟨count⟩
  else if (readCount (countText count)).2.isNone && isUndefinedNumeral groupDigits faces then
    .error ⟨faces⟩
  else .ok (assemble count faces options)

/-- Whether the group can be rolled. -/
def isValid (group : Group) : Bool :=
  group.error.isNone

/-- The group in notation. -/
def text (group : Group) : Text :=
  decimalText group.dice ++ 'd' :: group.faces.text ++ group.options.text

/-- The group with its total, in short. -/
def summary (group : Group) : Text :=
  '(' :: group.text ++ [')', ' '] ++ integerText group.total

/-- The group with all its dice and its total. -/
def describe (group : Group) : Text :=
  '(' :: group.text ++ [')', ' ', '['] ++ joinWith [','] (group.outcomes.map (·.text)) ++
    [']', ' ', '=', ' '] ++ integerText group.total

/-- Rolls the dice of the group, whether or not it has a fault, and stores the throw. -/
def rollDice (group : Group) (source : Source) : Except RollError Group × Source :=
  match throwDice group.dice group.faces group.options source with
  | (.error e, after) => (.error e, after)
  | (.ok throw, after) =>
    (.ok { group with outcomes := throw.outcomes, total := throw.total }, after)

end Group

/-- Why a group was not rolled. -/
inductive GroupRollError
  /-- The group, written as `text`, has a fault. -/
  | invalid (text : Text) (error : GroupError)
  /-- The dice could not be rolled. -/
  | roll (error : RollError)
  deriving DecidableEq

/-- The wording of the refusal to roll a group with a fault. -/
def refusalMessage (text : Text) (error : GroupError) : String :=
  "Cannot roll " ++ String.ofList text ++ ": " ++ error.message

/-- Rolls a group and stores the throw, unless the group has a fault. -/
def Group.roll (group : Group) (source : Source) : Except GroupRollError Group × Source :=
  match group.error with
  | some error => (.error (.invalid group.text error), source)
  | none =>
    match group.rollDice source with
    | (.error e, after) => (.error (.roll e), after)
    | (.ok group, after) => (.ok group, after)

end DiceNotation
