import DiceNotation.Request.Basic
import DiceNotation.Proofs.Dice.Notation
import DiceNotation.Proofs.Text.Spacing

/-!
# Items

A request is made of items, which are values and operators, and every piece of its text stands for
one of them unless it is an oversized constant (`Piece.item?`). An item is legible
(`Item.IsLegible`) if its notation holds no blank and is read as a piece for the same item wherever
a blank or nothing at all follows. The items of written pieces are legible, however their numbers
were written (`Piece.isLegible_of_item?`), as long as the count of no group is too long.

* *Why a blank is enough:* What a piece is read as depends on the text behind it only where digits,
    an argument, a modifier or the letter of a die could prolong it. A blank is none of these, and
    neither is an operator (`BreakAhead`).
-/

namespace DiceNotation

/-! ## Items -/

/-- What a request is made of. -/
inductive Item
  | value (value : Value)
  | operator (c : Char)
  deriving DecidableEq

/-- The item in notation. -/
def Item.text : Item → Text
  | .value v => v.text
  | .operator c => [c]

/-- The item that a piece stands for, unless it is an oversized constant. -/
def Piece.item? : Piece → Option Item
  | .dice lexeme modifiers =>
    some (.value (.group (Group.assemble lexeme.count lexeme.faces modifiers)))
  | .constant digits =>
    (boundedValue? constantDigits digits).map fun n : Nat => .value (.constant n)
  | .operator c => some (.operator c)

/-- The count of the piece, if it is a group, has no more significant digits than are read. -/
def Piece.HasShortCount : Piece → Prop
  | .dice lexeme _ => (significant lexeme.count).length ≤ groupDigits
  | _ => True

instance (piece : Piece) : Decidable piece.HasShortCount :=
  match piece with
  | .dice lexeme _ => inferInstanceAs (Decidable ((significant lexeme.count).length ≤ groupDigits))
  | .constant _ => inferInstanceAs (Decidable True)
  | .operator _ => inferInstanceAs (Decidable True)

/-! ## Written pieces -/

/-- The parts of a piece are those that the notation allows. -/
inductive Piece.IsWritten : Piece → Prop
  | dice {lexeme : DiceLexeme} {modifiers : Text} :
    lexeme.IsWritten → IsSuffix modifiers → IsWritten (.dice lexeme modifiers)
  | constant {digits : Text} : IsRun digits → IsWritten (.constant digits)
  | operator {c : Char} : c ∈ operatorChars → IsWritten (.operator c)

variable {text rest tail : Text} {piece : Piece}

theorem Piece.read?_isWritten (h : Piece.read? text = some (piece, rest)) : piece.IsWritten := by
  rw [read?] at h
  split at h
  · rename_i lexeme after hlexeme
    cases h
    exact .dice (DiceLexeme.read?_isWritten hlexeme) (isSuffix_takeModifiers after)
  · split at h
    · rename_i digits after hdigits
      cases h
      exact .constant (readDigits?_isRun hdigits)
    · obtain ⟨⟨c, after⟩, hread, heq⟩ := Option.map_eq_some_iff.1 h
      cases heq
      exact .operator (mem_of_readOperator? hread)

theorem Piece.read?_dice {lexeme : DiceLexeme} {modifiers : Text} (hlexeme : lexeme.IsWritten)
    (hmodifiers : IsSuffix modifiers) (ht : BreakAhead tail) :
    Piece.read? (lexeme.text ++ (modifiers ++ tail)) = some (.dice lexeme modifiers, tail) := by
  have harg : NotAhead isArgumentChar tail := ht.notAhead (by decide)
  have hdigit := (hmodifiers.notAhead_append harg).isDigit_of_argument
  rw [read?, hlexeme.read?_append hdigit]
  simp only [hmodifiers.takeModifiers_append harg (ht.notAhead (by decide))]

theorem Piece.read?_constant {digits : Text} (h : IsRun digits) (ht : BreakAhead tail) :
    Piece.read? (digits ++ tail) = some (.constant digits, tail) := by
  have hdigit : NotAhead isDigit tail := ht.notAhead (by decide)
  rw [read?, DiceLexeme.read?_eq_none h.all hdigit (ht.notAhead (by decide))]
  simp only [h.readDigits?_append hdigit]

theorem Piece.read?_operator {c : Char} (h : c ∈ operatorChars) (tail : Text) :
    Piece.read? (c :: tail) = some (.operator c, tail) := by
  have hdigit : isDigit c = false :=
    eq_false_of_any_eq_false (by decide : operatorChars.any isDigit = false) h
  have hletter : (c == 'd' || c == 'D') = false := eq_false_of_any_eq_false
    (by decide : operatorChars.any (fun c => c == 'd' || c == 'D') = false) h
  have hlexeme : DiceLexeme.read? ([] ++ c :: tail) = none :=
    DiceLexeme.read?_eq_none nofun (notAhead_cons hdigit) (notAhead_cons hletter)
  have hdigits : readDigits? (c :: tail) = none := readDigits?_eq_none (notAhead_cons hdigit)
  rw [List.nil_append] at hlexeme
  rw [read?, hlexeme]
  simp only [hdigits]
  rw [readOperator?, if_pos (List.contains_iff_mem.2 h)]
  rfl

/-! ## Legible items -/

/-- The item has a notation without blanks that is read as a piece for the item. -/
structure Item.IsLegible (item : Item) : Prop where
  solid : IsSolid item.text
  read : ∀ tail, SpaceAhead tail →
    ∃ piece, Piece.read? (item.text ++ tail) = some (piece, tail) ∧ piece.item? = some item

theorem constantDigits_pos : 0 < constantDigits := by decide

/-- The notation of a group of written parts begins with a lexeme again. -/
theorem Group.isWritten_assemble {lexeme : DiceLexeme} (h : lexeme.IsWritten) (modifiers : Text) :
    DiceLexeme.IsWritten
      ⟨decimalText (Group.assemble lexeme.count lexeme.faces modifiers).dice, 'd',
        (Group.assemble lexeme.count lexeme.faces modifiers).faces.text⟩ :=
  ⟨(isRun_decimalText _).all, .inl rfl, Group.isFaces_assemble h.faces⟩

theorem Group.isSolid_text_assemble {lexeme : DiceLexeme} {modifiers : Text}
    (hlexeme : lexeme.IsWritten) (hmodifiers : IsSuffix modifiers) :
    IsSolid (Group.assemble lexeme.count lexeme.faces modifiers).text := by
  rw [← Group.options_text_assemble lexeme.count lexeme.faces modifiers] at hmodifiers
  exact (Group.isWritten_assemble hlexeme _).isSolid.append hmodifiers.isBlank_eq_false

/-- A group of written parts is legible: its notation is a lexeme and a suffix again. -/
theorem Item.isLegible_group {lexeme : DiceLexeme} {modifiers : Text} (hlexeme : lexeme.IsWritten)
    (hmodifiers : IsSuffix modifiers) (hcount : (significant lexeme.count).length ≤ groupDigits) :
    IsLegible (.value (.group (Group.assemble lexeme.count lexeme.faces modifiers))) := by
  have hparts := Group.assemble_parts lexeme.faces modifiers
    (Group.readCount_ne_countTooLong hlexeme.count hcount)
  have hoptions := Group.options_text_assemble lexeme.count lexeme.faces modifiers
  have hsolid := Group.isSolid_text_assemble hlexeme hmodifiers
  have hagain := Group.isWritten_assemble hlexeme modifiers
  generalize Group.assemble lexeme.count lexeme.faces modifiers = group at *
  rw [← hoptions] at hmodifiers
  refine ⟨hsolid, fun tail ht => ?_⟩
  refine ⟨.dice ⟨decimalText group.dice, 'd', group.faces.text⟩ group.options.text, ?_, ?_⟩
  · have hread := Piece.read?_dice hagain hmodifiers ht.breakAhead
    rwa [← List.append_assoc] at hread
  · exact congrArg (fun group => some (Item.value (.group group))) hparts

theorem Item.isLegible_constant {digits : Text} {n : Nat}
    (h : boundedValue? constantDigits digits = some n) :
    IsLegible (.value (.constant n)) := by
  have htext : Item.text (.value (.constant n)) = decimalText n := integerText_natCast n
  have hagain := boundedValue?_decimalText constantDigits_pos h
  refine ⟨?_, fun tail ht => ⟨.constant (decimalText n), ?_, ?_⟩⟩
  · rw [htext]
    exact (isRun_decimalText n).isSolid
  · rw [htext]
    exact Piece.read?_constant (isRun_decimalText n) ht.breakAhead
  · rw [Piece.item?, hagain]
    rfl

theorem Item.isLegible_operator {c : Char} (h : c ∈ operatorChars) : IsLegible (.operator c) := by
  have hblank : operatorChars.any isBlank = false := by decide
  refine ⟨⟨List.cons_ne_nil _ _, fun c' hc' => ?_⟩, fun tail _ => ?_⟩
  · rw [List.mem_singleton.1 hc']
    exact eq_false_of_any_eq_false hblank h
  · exact ⟨.operator c, Piece.read?_operator h tail, rfl⟩

/-- The item that a written piece stands for is legible. -/
theorem Piece.isLegible_of_item? {item : Item} (hwritten : piece.IsWritten)
    (hcount : piece.HasShortCount) (h : piece.item? = some item) : item.IsLegible := by
  cases hwritten with
  | dice hlexeme hmodifiers =>
    cases h
    exact Item.isLegible_group hlexeme hmodifiers hcount
  | constant hdigits =>
    obtain ⟨n, hvalue, rfl⟩ := Option.map_eq_some_iff.1 h
    exact Item.isLegible_constant hvalue
  | operator hc =>
    cases h
    exact Item.isLegible_operator hc

end DiceNotation
