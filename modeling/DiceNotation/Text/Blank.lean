import DiceNotation.Text.Basic

/-!
# Blanks

Two classes of blank characters are in use. The ends of a text are cleared of every character of
the Unicode class of white space (`strip`), whereas between the words of a request only space, tab,
carriage return and line feed separate (`isSeparator`).
-/

namespace DiceNotation

/-- The code points that are cleared from the ends of a text. -/
def blankRuns : List (Nat × Nat) :=
  [(0x9, 0xd), (0x1c, 0x20), (0x85, 0x85), (0xa0, 0xa0), (0x1680, 0x1680), (0x2000, 0x200a),
   (0x2028, 0x2029), (0x202f, 0x202f), (0x205f, 0x205f), (0x3000, 0x3000)]

/-- Whether a character is white space in the wide sense. -/
def isBlank (c : Char) : Bool :=
  blankRuns.any fun run => run.1 ≤ c.toNat && c.toNat ≤ run.2

/-- Whether a character separates the words of a request. -/
def isSeparator (c : Char) : Bool :=
  c == ' ' || c == '\t' || c == '\r' || c == '\n'

/-- A text without the blanks at its front. -/
def stripFront (text : Text) : Text :=
  text.dropWhile isBlank

/-- A text without the blanks at its end. -/
def stripBack (text : Text) : Text :=
  (text.reverse.dropWhile isBlank).reverse

/-- A text without the blanks at its ends. -/
def strip (text : Text) : Text :=
  stripBack (stripFront text)

/-- A text without the separators at its front. -/
def skipSeparators (text : Text) : Text :=
  text.dropWhile isSeparator

/-- A separator is white space also in the wide sense. -/
theorem isBlank_of_isSeparator {c : Char} (h : isSeparator c = true) : isBlank c = true := by
  simp only [isSeparator, Bool.or_eq_true, beq_iff_eq] at h
  rcases h with ((rfl | rfl) | rfl) | rfl <;> decide

end DiceNotation
