import DiceNotation.Text.Digit

/-!
# Numerals

Numbers are read up to a limit on their significant digits, and only the ASCII zero is insignificant
at the front (`significant`). A reader that has a run of digits in hand asks for its value
(`boundedValue?`); one that is given any word first finds out what the word stands for
(`Numeral.read`). A word with a character that is a digit in appearance only counts as a number but
denotes none (`isUndefinedNumeral`).
-/

namespace DiceNotation

/-- A run of digits without the ASCII zeros in front. -/
def significant (digits : Text) : Text :=
  digits.dropWhile (· == '0')

/-- The number that a run of digits denotes, if it has at most `limit` significant digits. -/
def boundedValue? (limit : Nat) (digits : Text) : Option Nat :=
  if limit < (significant digits).length then none else some (numeralValue digits)

/-- Whether a word is made of characters that are digits, be it in appearance only. -/
def looksNumeric (word : Text) : Bool :=
  !word.isEmpty && word.all fun c => isDigit c || isDigitLike c

/-- What a word stands for where a number of at most so many significant digits is expected. -/
inductive Numeral
  /-- The word is empty or holds a character that does not even look like a digit. -/
  | word
  /-- The word is made of digits, but too many of them are significant. -/
  | tooLong
  /-- The word denotes a number. -/
  | value (n : Nat)
  deriving DecidableEq

/-- Reads a word as a number of at most `limit` significant digits. -/
def Numeral.read (limit : Nat) (word : Text) : Numeral :=
  if !looksNumeric word then .word
  else if limit < (significant word).length then .tooLong
  else .value (numeralValue word)

/-- Whether a word would be read as a number of at most `limit` significant digits although it
denotes none, since some of its characters are digits in appearance only. -/
def isUndefinedNumeral (limit : Nat) (word : Text) : Bool :=
  looksNumeric word && decide ((significant word).length ≤ limit) && !word.all isDigit

end DiceNotation
