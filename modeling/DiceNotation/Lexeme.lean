import DiceNotation.Text.Numeral
import DiceNotation.Text.Blank

/-!
# Lexemes

The pieces of text that dice notation is made of, each with the letters and digits it was written
with: a run of digits, a dice lexeme such as `4d6`, an operator character, and the arguments of the
modifiers, such as `h3` and `<=2`. Every reader takes the longest lexeme at the front of a text and
returns it with the text that follows; none accepts the empty piece, so each leaves less than it was
given (`readDigits?_ne_nil`), which is what makes reading end.
-/

namespace DiceNotation

/-- Reads a run of digits, as long as possible. -/
def readDigits? (text : Text) : Option (Text × Text) :=
  let digits := text.takeWhile isDigit
  if digits.isEmpty then none else some (digits, text.dropWhile isDigit)

/-- A dice lexeme: how many dice, which letter stood between, and which faces. -/
structure DiceLexeme where
  /-- The digits of the count; there may be none. -/
  count : Text
  /-- The letter between count and faces. -/
  letter : Char
  /-- The digits of the number of faces, or the letter of a special die. -/
  faces : Text
  deriving DecidableEq

/-- The lexeme as it was written. -/
def DiceLexeme.text (d : DiceLexeme) : Text :=
  d.count ++ d.letter :: d.faces

/-- The faces text of the special die that shows minus one, zero or one. -/
def fudgeFaces : Text := ['f']

/-- Reads what stands after the letter of a dice lexeme: digits, or the letter of the special die. -/
def readFaces? (text : Text) : Option (Text × Text) :=
  match readDigits? text with
  | some found => some found
  | none =>
    match text with
    | 'f' :: rest => some (fudgeFaces, rest)
    | _ => none

/-- Reads a dice lexeme. -/
def DiceLexeme.read? (text : Text) : Option (DiceLexeme × Text) :=
  match text.dropWhile isDigit with
  | c :: rest =>
    if c == 'd' || c == 'D' then
      (readFaces? rest).map fun (faces, after) => (⟨text.takeWhile isDigit, c, faces⟩, after)
    else none
  | [] => none

/-- The operator characters, parentheses included. -/
def operatorChars : List Char := ['-', '+', '*', '/', '%', '^', '(', ')']

/-- Reads an operator character. -/
def readOperator? : Text → Option (Char × Text)
  | c :: rest => if operatorChars.contains c then some (c, rest) else none
  | [] => none

/-- The argument of a modifier that selects dice: an optional letter for the side, and a count. -/
structure SidedCount where
  /-- The letter of the side, if one was written. -/
  letter : Option Char
  /-- The digits of the count. -/
  digits : Text
  deriving DecidableEq

/-- The argument as it was written. -/
def SidedCount.text (a : SidedCount) : Text :=
  a.letter.toList ++ a.digits

/-- The letters that name a side. -/
def sideLetters : List Char := ['h', 'l', 'H', 'L']

/-- Takes one character from the front of a text, if it is one of `chars`. -/
def readOneOf (chars : List Char) : Text → Option Char × Text
  | c :: rest => if chars.contains c then (some c, rest) else (none, c :: rest)
  | [] => (none, [])

/-- Reads the argument of a modifier that selects dice. -/
def SidedCount.read? (text : Text) : Option (SidedCount × Text) :=
  let (letter, rest) := readOneOf sideLetters text
  (readDigits? rest).map fun (digits, after) => (⟨letter, digits⟩, after)

/-- The argument of the modifier that rolls again: an optional comparison, and a target. -/
structure ComparedTarget where
  /-- The characters of the comparison; there may be none. -/
  comparison : Text
  /-- The digits of the target. -/
  digits : Text
  deriving DecidableEq

/-- The argument as it was written. -/
def ComparedTarget.text (a : ComparedTarget) : Text :=
  a.comparison ++ a.digits

/-- Reads the argument of the modifier that rolls again. -/
def ComparedTarget.read? (text : Text) : Option (ComparedTarget × Text) :=
  let (order, rest) := readOneOf ['<', '>'] text
  let (equality, rest) := readOneOf ['='] rest
  (readDigits? rest).map fun (digits, after) => (⟨order.toList ++ equality.toList, digits⟩, after)

/-! ## Reading makes progress -/

theorem readDigits?_append {text digits rest : Text} (h : readDigits? text = some (digits, rest)) :
    digits ++ rest = text := by
  simp only [readDigits?] at h
  split at h
  · cases h
  · simp only [Option.some.injEq, Prod.mk.injEq] at h
    rw [← h.1, ← h.2, List.takeWhile_append_dropWhile]

theorem readDigits?_ne_nil {text digits rest : Text} (h : readDigits? text = some (digits, rest)) :
    digits ≠ [] := by
  simp only [readDigits?] at h
  split at h
  · cases h
  · rename_i hne
    simp only [Option.some.injEq, Prod.mk.injEq] at h
    rw [← h.1]
    simpa using hne

theorem readFaces?_append {text faces rest : Text} (h : readFaces? text = some (faces, rest)) :
    faces ++ rest = text := by
  simp only [readFaces?] at h
  split at h
  · rename_i found hd
    simp only [Option.some.injEq] at h
    subst h
    exact readDigits?_append hd
  · split at h
    · simp only [Option.some.injEq, Prod.mk.injEq, fudgeFaces] at h
      simp [← h.1, ← h.2]
    · cases h

/-- A dice lexeme and what follows it make up the text that was read. -/
theorem DiceLexeme.read?_append {text rest : Text} {d : DiceLexeme}
    (h : DiceLexeme.read? text = some (d, rest)) : d.text ++ rest = text := by
  simp only [DiceLexeme.read?] at h
  split at h
  · rename_i c after hdrop
    split at h
    · simp only [Option.map_eq_some_iff, Prod.mk.injEq, Prod.exists] at h
      obtain ⟨faces, after', hf, rfl, rfl⟩ := h
      have hfaces := readFaces?_append hf
      have hall := List.takeWhile_append_dropWhile (p := isDigit) (l := text)
      simp only [DiceLexeme.text, List.append_assoc, List.cons_append]
      rw [hfaces, ← hdrop, hall]
    · cases h
  · cases h

theorem readOperator?_append {text rest : Text} {c : Char}
    (h : readOperator? text = some (c, rest)) : c :: rest = text := by
  unfold readOperator? at h
  split at h
  · split at h
    · simp only [Option.some.injEq, Prod.mk.injEq] at h
      rw [h.1, h.2]
    · cases h
  · cases h

theorem readOneOf_append (chars : List Char) (text : Text) :
    (readOneOf chars text).1.toList ++ (readOneOf chars text).2 = text := by
  unfold readOneOf
  split
  · split <;> simp
  · simp

theorem SidedCount.read?_append {text rest : Text} {a : SidedCount}
    (h : SidedCount.read? text = some (a, rest)) : a.text ++ rest = text := by
  simp only [SidedCount.read?, Option.map_eq_some_iff, Prod.mk.injEq, Prod.exists] at h
  obtain ⟨digits, after, hd, rfl, rfl⟩ := h
  simp only [SidedCount.text, List.append_assoc, readDigits?_append hd, readOneOf_append]

theorem ComparedTarget.read?_append {text rest : Text} {a : ComparedTarget}
    (h : ComparedTarget.read? text = some (a, rest)) : a.text ++ rest = text := by
  simp only [ComparedTarget.read?, Option.map_eq_some_iff, Prod.mk.injEq, Prod.exists] at h
  obtain ⟨digits, after, hd, rfl, rfl⟩ := h
  simp only [ComparedTarget.text, List.append_assoc, readDigits?_append hd, readOneOf_append]

end DiceNotation
