import DiceNotation.Modifier.Suffix

/-!
# The pieces of a request

A request is written in pieces: dice lexemes with the modifiers behind them, constants and operator
characters. They are tried in this order (`Piece.read?`), and each is as long as possible. A piece
and what follows it make up the text it was read from (`Piece.read?_append`), and it is never empty.
-/

namespace DiceNotation

/-- A piece of a request. -/
inductive Piece
  /-- A dice lexeme with the modifiers behind it. -/
  | dice (lexeme : DiceLexeme) (modifiers : Text)
  | constant (digits : Text)
  | operator (c : Char)
  deriving DecidableEq

/-- The piece as it was written. -/
def Piece.text : Piece → Text
  | .dice lexeme modifiers => lexeme.text ++ modifiers
  | .constant digits => digits
  | .operator c => [c]

/-- Reads the piece at the front of a text. -/
def Piece.read? (text : Text) : Option (Piece × Text) :=
  match DiceLexeme.read? text with
  | some (lexeme, rest) =>
    let suffix := takeModifiers rest
    some (.dice lexeme suffix.1, suffix.2)
  | none =>
    match readDigits? text with
    | some (digits, rest) => some (.constant digits, rest)
    | none => (readOperator? text).map fun (c, rest) => (.operator c, rest)

/-- A piece and what follows it make up the text that was read. -/
theorem Piece.read?_append {text rest : Text} {piece : Piece}
    (h : Piece.read? text = some (piece, rest)) : piece.text ++ rest = text := by
  unfold Piece.read? at h
  split at h
  · rename_i d after hd
    simp only [Option.some.injEq, Prod.mk.injEq] at h
    obtain ⟨rfl, rfl⟩ := h
    simp only [Piece.text, List.append_assoc, takeModifiers_append, DiceLexeme.read?_append hd]
  · split at h
    · rename_i digits after hdigits
      simp only [Option.some.injEq, Prod.mk.injEq] at h
      obtain ⟨rfl, rfl⟩ := h
      exact readDigits?_append hdigits
    · simp only [Option.map_eq_some_iff, Prod.mk.injEq, Prod.exists] at h
      obtain ⟨c, after, hop, rfl, rfl⟩ := h
      exact readOperator?_append hop

theorem Piece.text_ne_nil_of_read? {text rest : Text} {piece : Piece}
    (h : Piece.read? text = some (piece, rest)) : piece.text ≠ [] := by
  unfold Piece.read? at h
  split at h
  · simp only [Option.some.injEq, Prod.mk.injEq] at h
    rw [← h.1]
    simp [Piece.text, DiceLexeme.text]
  · split at h
    · rename_i digits after hdigits
      simp only [Option.some.injEq, Prod.mk.injEq] at h
      rw [← h.1]
      exact readDigits?_ne_nil hdigits
    · simp only [Option.map_eq_some_iff, Prod.mk.injEq, Prod.exists] at h
      obtain ⟨c, after, hop, rfl, rfl⟩ := h
      simp [Piece.text]

/-- Reading a piece leaves less text. -/
theorem Piece.length_read?_lt {text rest : Text} {piece : Piece}
    (h : Piece.read? text = some (piece, rest)) : rest.length < text.length := by
  have happ := congrArg List.length (Piece.read?_append h)
  have hne := List.length_pos_iff.2 (Piece.text_ne_nil_of_read? h)
  simp only [List.length_append] at happ
  omega

end DiceNotation
