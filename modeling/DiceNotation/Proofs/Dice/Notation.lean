import DiceNotation.Dice.Group
import DiceNotation.Proofs.Modifier.Suffix

/-!
# Groups read back

A group writes down what it has understood and keeps the rest as it was written: the count as a
number, the faces as a number or as the text for them, and the text of the options. Assembled from
these three, the group comes out the same, fault included (`Group.assemble_parts`). The one
exception is a count with too many digits, which the group does not keep.
-/

namespace DiceNotation

namespace Group

theorem groupDigits_pos : 0 < groupDigits := by decide

/-- A count that is not too long to be kept is read again from what is kept of it. -/
theorem readCount_decimalText {text : Text} (h : (readCount text).2 ≠ some .countTooLong) :
    readCount (decimalText (readCount text).1) = readCount text := by
  cases hread : Numeral.read groupDigits text with
  | tooLong =>
    rw [readCount, hread] at h
    exact absurd rfl h
  | word =>
    have hzero : Numeral.read groupDigits (decimalText 0) = .value 0 :=
      Numeral.read_decimalText groupDigits_pos (by decide)
    simp only [readCount, hread, hzero]
    rfl
  | value n =>
    have hvalue := Numeral.read_decimalText groupDigits_pos (Numeral.lt_of_read hread)
    simp only [readCount, hread, hvalue]

theorem countText_decimalText (n : Nat) : countText (decimalText n) = decimalText n := by
  rw [countText, if_neg]
  rw [List.isEmpty_iff]
  exact decimalText_ne_nil n

/-- What faces are understood as. -/
theorem readFaces_eq_ok {faces : Text} {die : Faces} (h : readFaces faces = .ok die) :
    (∃ n : Nat, die = .number n ∧ 2 ≤ n ∧ n < natPow 10 groupDigits) ∨ die = .word fudgeFaces := by
  rw [readFaces] at h
  split at h
  · cases h
  · split at h
    · cases h
      exact .inr rfl
    · cases h
  · rename_i n hread
    split at h
    · cases h
    · rename_i hn
      cases h
      exact .inl ⟨n, rfl, Nat.le_of_not_lt hn, Numeral.lt_of_read hread⟩

/-- Faces that were understood are read again from what they are written as. -/
theorem readFaces_text {faces : Text} {die : Faces} (h : readFaces faces = .ok die) :
    readFaces die.text = .ok die := by
  rcases readFaces_eq_ok h with ⟨n, rfl, hn, hlt⟩ | rfl
  · have hvalue := Numeral.read_decimalText groupDigits_pos hlt
    rw [Faces.text, integerText_natCast, readFaces, hvalue]
    exact if_neg (Nat.not_lt.2 hn)
  · rfl

theorem isFaces_text {faces : Text} {die : Faces} (h : readFaces faces = .ok die) :
    IsFaces die.text := by
  rcases readFaces_eq_ok h with ⟨n, rfl, -, -⟩ | rfl
  · rw [Faces.text, integerText_natCast]
    exact .inl (isRun_decimalText n)
  · exact .inr rfl

/-- A count of digits that has no more significant ones than allowed is not too long. -/
theorem readCount_ne_countTooLong {count : Text} (hdigits : ∀ c ∈ count, isDigit c = true)
    (hlength : (significant count).length ≤ groupDigits) :
    (readCount (countText count)).2 ≠ some .countTooLong := by
  have hread : ∃ n, Numeral.read groupDigits (countText count) = .value n := by
    rw [countText]
    split
    · exact ⟨1, by decide⟩
    · rename_i hne
      rw [List.isEmpty_iff] at hne
      rw [Numeral.read_of_isDigit hne hdigits, if_neg (Nat.not_lt.2 hlength)]
      exact ⟨_, rfl⟩
  obtain ⟨n, hread⟩ := hread
  simp only [readCount, hread]
  split
  · intro h
    cases h
  · split <;> exact fun h => nomatch h

/-- A group is built of a count in digits and of faces, whatever is wrong with them. -/
theorem create_of_isDigit {count faces : Text} (hcount : ∀ c ∈ count, isDigit c = true)
    (hfaces : IsFaces faces) (suffix : Text) :
    create count faces suffix = .ok (assemble count faces suffix) := by
  have hdefined := isUndefinedNumeral_of_isDigit groupDigits hcount
  have hdefinedFaces : isUndefinedNumeral groupDigits faces = false := by
    rcases hfaces with hrun | rfl
    · exact isUndefinedNumeral_of_isDigit groupDigits hrun.all
    · decide
  rw [create, hdefined, hdefinedFaces, Bool.and_false]
  rfl

/-- A group is assembled again from its parts, unless its count was too long to be kept. -/
theorem assemble_parts {count : Text} (faces options : Text)
    (hcount : (readCount (countText count)).2 ≠ some .countTooLong) :
    assemble (decimalText (assemble count faces options).dice)
        (assemble count faces options).faces.text (assemble count faces options).options.text =
      assemble count faces options := by
  -- Faces that are not reached or not understood are kept as written, to meet the same fate.
  have hagain := readCount_decimalText hcount
  cases hread : readCount (countText count) with
  | mk dice error =>
    rw [hread] at hagain
    cases error with
    | some error =>
      simp only [assemble, hread, countText_decimalText, hagain, Options.text_parse, Faces.text]
    | none =>
      cases hfaces : readFaces faces with
      | error error =>
        simp only [assemble, hread, hfaces, countText_decimalText, hagain, Options.text_parse,
          Faces.text]
      | ok die =>
        simp only [assemble, hread, hfaces, countText_decimalText, hagain, Options.text_parse,
          readFaces_text hfaces]

theorem isFaces_assemble {count faces options : Text} (h : IsFaces faces) :
    IsFaces (assemble count faces options).faces.text := by
  rw [assemble]
  split
  · exact h
  · split
    · exact h
    · rename_i hfaces
      exact isFaces_text hfaces

theorem options_text_assemble (count faces options : Text) :
    (assemble count faces options).options.text = options := by
  rw [assemble]
  split
  · exact Options.text_parse options
  · split <;> exact Options.text_parse options

end Group

end DiceNotation
