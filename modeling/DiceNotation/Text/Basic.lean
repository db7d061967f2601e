/-!
# Texts

Notation is read and written as lists of characters, which is what all readers and writers of this
library work on. Here are the writers that all others share: those of whole numbers
(`decimalText`, `integerText`) and of enumerations (`joinWith`).
-/

namespace DiceNotation

/-- The characters of a text, in reading order. -/
abbrev Text := List Char

/-- The decimal digits of a natural number. -/
def decimalText (n : Nat) : Text :=
  Nat.toDigits 10 n

/-- The decimal digits of an integer, after a minus sign if it is negative. -/
def integerText (n : Int) : Text :=
  if n < 0 then '-' :: decimalText n.natAbs else decimalText n.natAbs

theorem integerText_natCast (n : Nat) : integerText n = decimalText n := by
  rw [integerText, if_neg (Int.not_lt.2 (Int.natCast_nonneg n)), Int.natAbs_natCast]

/-- Texts set one after the other with `separator` between neighbours. -/
def joinWith (separator : Text) : List Text → Text
  | [] => []
  | [text] => text
  | text :: more => text ++ separator ++ joinWith separator more

end DiceNotation
