import DiceNotation.Text.Basic

/-!
# Switches

A switch is set by a word under a name, among other settings that do not concern it (`readSwitch`).
Names and switch words are compared without regard to the case of ASCII letters, and otherwise
exactly: a word with blanks around it is no switch word.
-/

namespace DiceNotation

/-- A text with its ASCII capital letters made small. -/
def foldCase (text : Text) : Text :=
  text.map Char.toLower

/-- The words that turn a switch on. -/
def onWords : List Text :=
  ["1", "true", "t", "yes", "y", "on"].map String.toList

/-- The words that turn a switch off. -/
def offWords : List Text :=
  ["0", "false", "f", "no", "n", "off"].map String.toList

/-- The position of a switch that a word names. -/
def switch? (word : Text) : Option Bool :=
  if onWords.contains (foldCase word) then some true
  else if offWords.contains (foldCase word) then some false
  else none

/-- The fault of a setting: the word given for a switch is no switch word. -/
structure SettingError where
  /-- The word that was given. -/
  word : Text
  deriving DecidableEq

/-- The position of the switch `name` among settings given as names and words. A switch that is not
set is off, and of two spellings of its name the later one counts. -/
def readSwitch (name : Text) (settings : List (Text × Text)) : Except SettingError Bool :=
  match settings.reverse.find? fun (other, _) => foldCase other == foldCase name with
  | none => .ok false
  | some (_, word) =>
    match switch? word with
    | some position => .ok position
    | none => .error ⟨word⟩

end DiceNotation
