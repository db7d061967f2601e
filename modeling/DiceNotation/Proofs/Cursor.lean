import DiceNotation.Cursor
import DiceNotation.Proofs.Lexeme

/-!
# Reading with a cursor

Whatever steps a cursor takes (`Cursor.Step`), it goes forward only, and nothing that it passes is
lost (`Cursor.run_loses_nothing`). Both come from one fact about a single step: what it consumes
begins at the position, and the cursor is moved just behind it (`Cursor.Consumes`). Of such steps
one is made by joining what they consume, so the fact holds of every run of them.

A cursor that is placed behind the end of its text stays there, as there is nothing left to consume.
-/

namespace DiceNotation

/-! ## Patterns -/

variable {text : Text} {pattern : Pattern} {capture : Capture}

/-- A captured piece stands at the front of the text. -/
theorem Pattern.capture?_isPrefix (h : pattern.capture? text = some capture) :
    capture.piece <+: text := by
  cases pattern with
  | dice =>
    obtain ⟨⟨lexeme, rest⟩, hread, rfl⟩ := Option.map_eq_some_iff.1 h
    exact ⟨rest, DiceLexeme.read?_append hread⟩
  | constant | digits =>
    obtain ⟨⟨run, rest⟩, hread, rfl⟩ := Option.map_eq_some_iff.1 h
    exact ⟨rest, readDigits?_append hread⟩
  | operator =>
    obtain ⟨⟨c, rest⟩, hread, rfl⟩ := Option.map_eq_some_iff.1 h
    exact ⟨rest, readOperator?_append hread⟩
  | sidedCount =>
    obtain ⟨⟨argument, rest⟩, hread, rfl⟩ := Option.map_eq_some_iff.1 h
    exact ⟨rest, SidedCount.read?_append hread⟩
  | comparedTarget =>
    obtain ⟨⟨argument, rest⟩, hread, rfl⟩ := Option.map_eq_some_iff.1 h
    exact ⟨rest, ComparedTarget.read?_append hread⟩
  | digitsBeforeLetter =>
    rw [capture?] at h
    split at h
    · rename_i run rest hread
      cases h
      exact ⟨rest, by rw [← readDigits?_append hread, List.append_assoc]; rfl⟩
    · cases h

/-- No pattern fits the empty piece. -/
theorem Pattern.piece_ne_nil (h : pattern.capture? text = some capture) : capture.piece ≠ [] := by
  cases pattern with
  | dice =>
    obtain ⟨⟨lexeme, rest⟩, hread, rfl⟩ := Option.map_eq_some_iff.1 h
    exact (DiceLexeme.read?_isWritten hread).isSolid.ne_nil
  | constant | digits =>
    obtain ⟨⟨run, rest⟩, hread, rfl⟩ := Option.map_eq_some_iff.1 h
    exact readDigits?_ne_nil hread
  | operator =>
    obtain ⟨⟨c, rest⟩, hread, rfl⟩ := Option.map_eq_some_iff.1 h
    exact List.cons_ne_nil c []
  | sidedCount =>
    obtain ⟨⟨argument, rest⟩, hread, rfl⟩ := Option.map_eq_some_iff.1 h
    exact List.append_ne_nil_of_right_ne_nil _ (SidedCount.read?_isWritten hread).digits.ne_nil
  | comparedTarget =>
    obtain ⟨⟨argument, rest⟩, hread, rfl⟩ := Option.map_eq_some_iff.1 h
    exact List.append_ne_nil_of_right_ne_nil _ (ComparedTarget.read?_isWritten hread).digits.ne_nil
  | digitsBeforeLetter =>
    rw [capture?] at h
    split at h
    · cases h
      exact List.append_ne_nil_of_right_ne_nil _ (List.cons_ne_nil 'd' [])
    · cases h

namespace Cursor

/-! ## Steps -/

/-- What a reader may do with a cursor. -/
inductive Step
  | takeChar
  | takeWhile (isMember : Char → Bool)
  | takeUntil (isMember : Char → Bool)
  | takeSeparators
  | takeModifiers
  | takeMatch (pattern : Pattern)
  | peek (distance : Int)

/-- The piece that a step consumes, and the cursor that it leaves. -/
def step (cursor : Cursor) : Step → Text × Cursor
  | .takeChar => (cursor.takeChar.1.toList, cursor.takeChar.2)
  | .takeWhile isMember => cursor.takeWhile isMember
  | .takeUntil isMember => cursor.takeUntil isMember
  | .takeSeparators => cursor.takeSeparators
  | .takeModifiers => cursor.takeModifiers
  | .takeMatch pattern =>
    match cursor.takeMatch? pattern with
    | some (capture, next) => (capture.piece, next)
    | none => ([], cursor)
  | .peek _ => ([], cursor)

/-- The pieces that steps consume one after the other, and the cursor that they reach. -/
def run (cursor : Cursor) : List Step → List Text × Cursor
  | [] => ([], cursor)
  | s :: steps =>
    let (piece, next) := cursor.step s
    let (pieces, last) := next.run steps
    (piece :: pieces, last)

/-- The piece begins at the position of the cursor, and the other cursor is just behind it. -/
structure Consumes (cursor : Cursor) (piece : Text) (next : Cursor) : Prop where
  isPrefix : piece <+: cursor.remainder
  next_eq : next = cursor.advance piece.length

variable {cursor next last : Cursor} {piece more : Text}

theorem remainder_advance (cursor : Cursor) (count : Nat) :
    (cursor.advance count).remainder = cursor.remainder.drop count := by
  rw [remainder, remainder, List.drop_drop]
  rfl

namespace Consumes

theorem nil (cursor : Cursor) : cursor.Consumes [] cursor :=
  ⟨List.nil_prefix, rfl⟩

/-- What is consumed piece by piece is consumed as a whole. -/
theorem append (h : cursor.Consumes piece next) (hmore : next.Consumes more last) :
    cursor.Consumes (piece ++ more) last := by
  obtain ⟨hpiece, rfl⟩ := h
  obtain ⟨hahead, rfl⟩ := hmore
  constructor
  · obtain ⟨rest, hrest⟩ := hpiece
    rw [remainder_advance, ← hrest, List.drop_left] at hahead
    rw [← hrest]
    exact (List.prefix_append_right_inj piece).2 hahead
  · rw [List.length_append, advance, advance, advance, Nat.add_assoc]

theorem text_eq (h : cursor.Consumes piece next) : next.text = cursor.text := by
  rw [h.next_eq]
  rfl

theorem position_eq (h : cursor.Consumes piece next) :
    next.position = cursor.position + piece.length := by
  rw [h.next_eq]
  rfl

theorem position_le (h : cursor.Consumes piece next) : cursor.position ≤ next.position :=
  h.position_eq ▸ Nat.le_add_right _ _

/-- A cursor gets no further than to the end of its text, unless it is behind it already. -/
theorem position_le_max (h : cursor.Consumes piece next) :
    next.position ≤ max cursor.text.length cursor.position := by
  have hlength := h.isPrefix.length_le
  rw [remainder, List.length_drop] at hlength
  rw [h.position_eq]
  omega

/-- What is consumed is all the text between the two positions. -/
theorem eq_between (h : cursor.Consumes piece next) :
    piece = (cursor.text.take next.position).drop cursor.position := by
  rw [List.drop_take, h.position_eq, Nat.add_sub_cancel_left]
  exact List.prefix_iff_eq_take.1 h.isPrefix

/-- The cursor stays where it is just if nothing is consumed. -/
theorem next_eq_self_iff (h : cursor.Consumes piece next) : next = cursor ↔ piece = [] := by
  constructor
  · rintro rfl
    have hposition := h.position_eq
    exact List.eq_nil_of_length_eq_zero (by omega)
  · rintro rfl
    exact h.next_eq

end Consumes

theorem takeChar_eq_none_iff : cursor.takeChar = (none, cursor) ↔ cursor.hasNext = false := by
  rw [hasNext, decide_eq_false_iff_not, Nat.not_lt, ← List.drop_eq_nil_iff, takeChar, remainder]
  split
  · rename_i c rest hrest
    rw [hrest]
    exact iff_of_false nofun nofun
  · rename_i hrest
    exact iff_of_true rfl hrest

theorem consumes_takeChar (cursor : Cursor) :
    cursor.Consumes cursor.takeChar.1.toList cursor.takeChar.2 := by
  rw [takeChar]
  split
  · rename_i c rest hrest
    exact ⟨⟨rest, hrest.symm⟩, rfl⟩
  · exact .nil cursor

theorem consumes_takeWhile (cursor : Cursor) (isMember : Char → Bool) :
    cursor.Consumes (cursor.takeWhile isMember).1 (cursor.takeWhile isMember).2 :=
  ⟨List.takeWhile_prefix isMember, rfl⟩

theorem consumes_takeModifiers (cursor : Cursor) :
    cursor.Consumes cursor.takeModifiers.1 cursor.takeModifiers.2 :=
  ⟨⟨_, takeModifiers_append cursor.remainder⟩, rfl⟩

theorem consumes_of_takeMatch? (h : cursor.takeMatch? pattern = some (capture, next)) :
    cursor.Consumes capture.piece next := by
  obtain ⟨found, hfound, heq⟩ := Option.map_eq_some_iff.1 h
  cases heq
  exact ⟨Pattern.capture?_isPrefix hfound, rfl⟩

/-- Every step consumes what begins at the position, be it nothing. -/
theorem consumes_step (cursor : Cursor) (s : Step) :
    cursor.Consumes (cursor.step s).1 (cursor.step s).2 := by
  cases s with
  | takeChar => exact cursor.consumes_takeChar
  | takeWhile isMember => exact cursor.consumes_takeWhile isMember
  | takeUntil isMember => exact cursor.consumes_takeWhile _
  | takeSeparators => exact cursor.consumes_takeWhile isSeparator
  | takeModifiers => exact cursor.consumes_takeModifiers
  | takeMatch pattern =>
    rw [step]
    split
    · rename_i hmatch
      exact consumes_of_takeMatch? hmatch
    · exact .nil cursor
  | peek distance => exact .nil cursor

/-! ## Runs -/

/-- A run of steps consumes what its steps consume, one behind the other. -/
theorem consumes_run (cursor : Cursor) (steps : List Step) :
    cursor.Consumes (cursor.run steps).1.flatten (cursor.run steps).2 := by
  induction steps generalizing cursor with
  | nil => exact .nil cursor
  | cons s steps ih => exact (cursor.consumes_step s).append (ih (cursor.step s).2)

/-- A pattern is not found just if the cursor stays where it is, since none is empty. -/
theorem takeMatch?_eq_none_iff :
    cursor.takeMatch? pattern = none ↔ (cursor.step (.takeMatch pattern)).2 = cursor := by
  rw [(cursor.consumes_step _).next_eq_self_iff, step]
  split
  · rename_i capture next hmatch
    obtain ⟨found, hfound, heq⟩ := Option.map_eq_some_iff.1 hmatch
    cases heq
    exact iff_of_false (hmatch ▸ nofun) (Pattern.piece_ne_nil hfound)
  · rename_i hmatch
    exact iff_of_true hmatch rfl

/-- The piece is as long as it can be with characters of the class alone: the next character, if
there is one, is not of the class. -/
structure IsLongestRun (isMember : Char → Bool) (piece : Text) (next : Cursor) : Prop where
  all : ∀ c ∈ piece, isMember c = true
  notAhead : NotAhead isMember next.remainder

theorem isLongestRun_takeWhile (cursor : Cursor) (isMember : Char → Bool) :
    IsLongestRun isMember (cursor.takeWhile isMember).1 (cursor.takeWhile isMember).2 := by
  refine ⟨List.all_eq_true.1 List.all_takeWhile, ?_⟩
  have hdrop : cursor.remainder.drop (cursor.remainder.takeWhile isMember).length =
      cursor.remainder.dropWhile isMember :=
    calc _ = (cursor.remainder.takeWhile isMember ++ cursor.remainder.dropWhile isMember).drop
          (cursor.remainder.takeWhile isMember).length := by rw [List.takeWhile_append_dropWhile]
      _ = cursor.remainder.dropWhile isMember := List.drop_left
  rw [takeWhile, remainder_advance, hdrop]
  exact notAhead_dropWhile isMember cursor.remainder

/-- From whatever position it is read, and by whatever steps, a text is read in order and without a
gap: the pieces that are consumed make up the text between the two positions, and the position gets
no further than to the end, if it is not behind it from the start. From there, no step goes back.
The cursor stays where it is if it looks ahead, if it takes a character at the end, and just if it
does not find the pattern that it is asked for. A run of characters of a class is as long as can be,
and so is one that ends at a character of a class. -/
theorem run_loses_nothing (text : Text) (start : Nat) (steps : List Step) :
    ∃ pieces reached, run ⟨text, start⟩ steps = (pieces, reached) ∧ reached.text = text ∧
      start ≤ reached.position ∧ reached.position ≤ max text.length start ∧
      pieces.flatten = (text.take reached.position).drop start ∧
      (∀ s, reached.position ≤ (reached.step s).2.position) ∧
      (∀ distance, (reached.step (.peek distance)).2 = reached) ∧
      (reached.takeChar = (none, reached) ↔ reached.hasNext = false) ∧
      (∀ pattern, reached.takeMatch? pattern = none ↔
        (reached.step (.takeMatch pattern)).2 = reached) ∧
      ∀ isMember,
        IsLongestRun isMember (reached.takeWhile isMember).1 (reached.takeWhile isMember).2 ∧
        IsLongestRun (fun c => !isMember c) (reached.takeUntil isMember).1
          (reached.takeUntil isMember).2 := by
  have hrun := consumes_run ⟨text, start⟩ steps
  exact ⟨_, _, rfl, hrun.text_eq, hrun.position_le, hrun.position_le_max, hrun.eq_between,
    fun s => (consumes_step _ s).position_le, fun _ => rfl, takeChar_eq_none_iff,
    fun _ => takeMatch?_eq_none_iff,
    fun _ => ⟨isLongestRun_takeWhile _ _, isLongestRun_takeWhile _ _⟩⟩

/-- The modifiers of a group are passed as one piece. Behind the end, all pieces are empty. -/
example : run ⟨"4d6k2! +".toList, 3⟩
      [.takeMatch .operator, .takeModifiers, .peek 2, .takeSeparators, .takeMatch .operator,
        .takeChar] =
    ([[], "k2!".toList, [], [' '], ['+'], []], ⟨"4d6k2! +".toList, 8⟩) := by
  decide +kernel

end Cursor

end DiceNotation
