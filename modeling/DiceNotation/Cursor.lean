import DiceNotation.Modifier.Suffix

/-!
# Cursors

A cursor is a text with a reading position. Every step of reading returns what it consumed, which
begins at the position, and the cursor moved behind it; a step that consumes nothing leaves the
cursor where it is. A cursor may be placed behind the end of its text, where there is nothing left
to read.

A `Pattern` is one of the lexemes of the notation or a plain run of digits, and `Cursor.takeMatch?`
reads one with the pieces that it captures.
-/

namespace DiceNotation

/-- The shapes of text that a cursor can be asked to match. -/
inductive Pattern
  /-- A dice lexeme, capturing count and faces. -/
  | dice
  /-- A run of digits that stands for a constant. -/
  | constant
  /-- An operator character. -/
  | operator
  /-- The argument of a modifier that selects dice, capturing side and count. -/
  | sidedCount
  /-- The argument of the modifier that rolls again, capturing comparison and target. -/
  | comparedTarget
  /-- A run of digits. -/
  | digits
  /-- A run of digits before a small `d`, capturing the digits. -/
  | digitsBeforeLetter
  deriving DecidableEq

/-- A piece of text that fits a pattern. -/
structure Capture where
  /-- The whole piece. -/
  piece : Text
  /-- The parts of the piece that the pattern captures, in order. -/
  parts : List Text
  deriving DecidableEq

/-- The longest piece at the front of a text that fits the pattern. -/
def Pattern.capture? (pattern : Pattern) (text : Text) : Option Capture :=
  match pattern with
  | .dice => (DiceLexeme.read? text).map fun (d, _) => ⟨d.text, [d.count, d.faces]⟩
  | .constant | .digits => (readDigits? text).map fun (run, _) => ⟨run, []⟩
  | .operator => (readOperator? text).map fun (c, _) => ⟨[c], []⟩
  | .sidedCount =>
    (SidedCount.read? text).map fun (a, _) => ⟨a.text, [a.letter.toList, a.digits]⟩
  | .comparedTarget =>
    (ComparedTarget.read? text).map fun (a, _) => ⟨a.text, [a.comparison, a.digits]⟩
  | .digitsBeforeLetter =>
    match readDigits? text with
    | some (run, 'd' :: _) => some ⟨run ++ ['d'], [run]⟩
    | _ => none

/-- A text and a position in it. -/
structure Cursor where
  /-- The text that is read. -/
  text : Text
  /-- How many characters lie before the reading position. -/
  position : Nat := 0
  deriving DecidableEq

namespace Cursor

/-- What is left to read. -/
def remainder (cursor : Cursor) : Text :=
  cursor.text.drop cursor.position

/-- Whether something is left to read. -/
def hasNext (cursor : Cursor) : Bool :=
  cursor.position < cursor.text.length

/-- The cursor `count` characters further on. -/
def advance (cursor : Cursor) (count : Nat) : Cursor :=
  { cursor with position := cursor.position + count }

/-- The cursor at another position of its text. -/
def seek (cursor : Cursor) (position : Nat) : Cursor :=
  { cursor with position := position }

/-- At most `distance` characters ahead, without moving; a negative distance gives none. -/
def peek (cursor : Cursor) (distance : Int) : Text :=
  cursor.remainder.take distance.toNat

/-- Takes the next character. -/
def takeChar (cursor : Cursor) : Option Char × Cursor :=
  match cursor.remainder with
  | c :: _ => (some c, cursor.advance 1)
  | [] => (none, cursor)

/-- Takes the longest run of characters of a class. -/
def takeWhile (cursor : Cursor) (isMember : Char → Bool) : Text × Cursor :=
  let run := cursor.remainder.takeWhile isMember
  (run, cursor.advance run.length)

/-- Takes characters up to the first one of a class. -/
def takeUntil (cursor : Cursor) (isMember : Char → Bool) : Text × Cursor :=
  cursor.takeWhile fun c => !isMember c

/-- Takes the separators ahead. -/
def takeSeparators (cursor : Cursor) : Text × Cursor :=
  cursor.takeWhile isSeparator

/-- Takes the modifiers of a group. -/
def takeModifiers (cursor : Cursor) : Text × Cursor :=
  let suffix := (DiceNotation.takeModifiers cursor.remainder).1
  (suffix, cursor.advance suffix.length)

/-- Takes a piece that fits a pattern, if one begins at the position. -/
def takeMatch? (cursor : Cursor) (pattern : Pattern) : Option (Capture × Cursor) :=
  (pattern.capture? cursor.remainder).map fun capture =>
    (capture, cursor.advance capture.piece.length)

end Cursor

end DiceNotation
