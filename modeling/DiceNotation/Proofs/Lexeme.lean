import DiceNotation.Lexeme
import DiceNotation.Proofs.Text.Spacing

/-!
# Lexemes read back

What a reader accepts is said here apart from the text it was found in: a run of digits (`IsRun`), a
dice lexeme (`DiceLexeme.IsWritten`) and the arguments of modifiers (`SidedCount.IsWritten`,
`ComparedTarget.IsWritten`). A reader returns such a lexeme, and it finds it again in front of any
text that cannot prolong it, which is one without a digit ahead. Lexemes and arguments have no
blanks, and neither a separator nor an operator can prolong one (`BreakAhead`).
-/

namespace DiceNotation

/-! ## Runs of digits -/

/-- A run of digits: at least one, and nothing else. -/
structure IsRun (digits : Text) : Prop where
  ne_nil : digits ≠ []
  all : ∀ c ∈ digits, isDigit c = true

theorem isRun_decimalText (n : Nat) : IsRun (decimalText n) :=
  ⟨decimalText_ne_nil n, fun _ => isDigit_of_mem_decimalText⟩

theorem isDigit_of_mem_takeWhile {text : Text} {c : Char} (h : c ∈ text.takeWhile isDigit) :
    isDigit c = true :=
  List.all_eq_true.1 List.all_takeWhile c h

variable {text rest tail : Text}

theorem readDigits?_isRun {digits : Text} (h : readDigits? text = some (digits, rest)) :
    IsRun digits := by
  refine ⟨readDigits?_ne_nil h, ?_⟩
  rw [readDigits?] at h
  split at h
  · cases h
  · cases h
    exact fun _ => isDigit_of_mem_takeWhile

/-- A run of digits is found in front of a text that does not go on with a digit. -/
theorem IsRun.readDigits?_append {digits : Text} (h : IsRun digits) (ht : NotAhead isDigit tail) :
    readDigits? (digits ++ tail) = some (digits, tail) := by
  have hne : ¬digits.isEmpty = true := by
    rw [List.isEmpty_iff]
    exact h.ne_nil
  rw [readDigits?, takeWhile_append h.all ht, dropWhile_append h.all ht,
    if_neg hne]

theorem readDigits?_eq_none (h : NotAhead isDigit text) : readDigits? text = none := by
  have hempty : text.takeWhile isDigit = [] := takeWhile_eq_nil h
  rw [readDigits?, hempty]
  rfl

theorem readDigits?_notAhead {digits : Text} (h : readDigits? text = some (digits, rest)) :
    NotAhead isDigit rest := by
  rw [readDigits?] at h
  split at h
  · cases h
  · cases h
    exact notAhead_dropWhile isDigit text

theorem notAhead_isDigit_of_readDigits? (h : readDigits? text = none) : NotAhead isDigit text := by
  intro c hc
  refine Bool.eq_false_iff.2 fun hdigit => ?_
  obtain ⟨more, rfl⟩ := List.head?_eq_some_iff.1 hc
  rw [readDigits?, List.takeWhile_cons_of_pos hdigit] at h
  cases h

/-- What follows a text makes no difference to the digits at its front, as long as it begins with
none. -/
theorem readDigits?_append_right (text : Text) (ht : NotAhead isDigit tail) :
    readDigits? (text ++ tail) =
      (readDigits? text).map fun (digits, rest) => (digits, rest ++ tail) := by
  cases h : readDigits? text with
  | none => exact readDigits?_eq_none ((notAhead_isDigit_of_readDigits? h).append_notAhead ht)
  | some found =>
    obtain ⟨digits, rest⟩ := found
    rw [← readDigits?_append h, List.append_assoc]
    exact (readDigits?_isRun h).readDigits?_append ((readDigits?_notAhead h).append_notAhead ht)

theorem IsRun.head {digits : Text} (h : IsRun digits) :
    ∃ c rest, digits = c :: rest ∧ isDigit c = true := by
  obtain ⟨c, rest, rfl⟩ := List.exists_cons_of_ne_nil h.ne_nil
  exact ⟨c, rest, rfl, h.all c List.mem_cons_self⟩

/-! ## Dice lexemes -/

/-- The faces of a dice lexeme: a run of digits, or the letter of the special die. -/
def IsFaces (faces : Text) : Prop :=
  IsRun faces ∨ faces = fudgeFaces

/-- The parts of a dice lexeme are those that the notation allows. -/
structure DiceLexeme.IsWritten (d : DiceLexeme) : Prop where
  count : ∀ c ∈ d.count, isDigit c = true
  letter : d.letter = 'd' ∨ d.letter = 'D'
  faces : IsFaces d.faces

theorem readFaces?_isFaces {faces : Text} (h : readFaces? text = some (faces, rest)) :
    IsFaces faces := by
  simp only [readFaces?] at h
  split at h
  · rename_i found hdigits
    cases h
    exact .inl (readDigits?_isRun hdigits)
  · split at h
    · cases h
      exact .inr rfl
    · cases h

theorem IsFaces.readFaces?_append {faces : Text} (h : IsFaces faces) (ht : NotAhead isDigit tail) :
    readFaces? (faces ++ tail) = some (faces, tail) := by
  rcases h with hrun | rfl
  · simp only [readFaces?, hrun.readDigits?_append ht]
  · have hnone : readDigits? (fudgeFaces ++ tail) = none :=
      readDigits?_eq_none (notAhead_cons (by decide))
    simp only [readFaces?, hnone]
    rfl

theorem DiceLexeme.read?_isWritten {d : DiceLexeme} (h : DiceLexeme.read? text = some (d, rest)) :
    d.IsWritten := by
  rw [DiceLexeme.read?] at h
  split at h
  · rename_i c after _
    split at h
    · rename_i hletter
      simp only [Option.map_eq_some_iff, Prod.mk.injEq, Prod.exists] at h
      obtain ⟨faces, after', hfaces, rfl, rfl⟩ := h
      rw [Bool.or_eq_true, beq_iff_eq, beq_iff_eq] at hletter
      exact ⟨fun _ => isDigit_of_mem_takeWhile, hletter, readFaces?_isFaces hfaces⟩
    · cases h
  · cases h

/-- The letter ends the digits of the count. -/
theorem DiceLexeme.IsWritten.notAhead_letter {d : DiceLexeme} (h : d.IsWritten) :
    NotAhead isDigit (d.letter :: tail) := by
  refine notAhead_cons ?_
  rcases h.letter with heq | heq <;> rw [heq] <;> decide

/-- A dice lexeme is found in front of a text that does not go on with a digit. -/
theorem DiceLexeme.IsWritten.read?_append {d : DiceLexeme} (h : d.IsWritten)
    (ht : NotAhead isDigit tail) :
    DiceLexeme.read? (d.text ++ tail) = some (d, tail) := by
  have hnot : NotAhead isDigit (d.letter :: (d.faces ++ tail)) := h.notAhead_letter
  have hd : (d.letter == 'd' || d.letter == 'D') = true := by
    rw [Bool.or_eq_true, beq_iff_eq, beq_iff_eq]
    exact h.letter
  rw [DiceLexeme.read?, DiceLexeme.text, List.append_assoc, List.cons_append,
    dropWhile_append h.count hnot, takeWhile_append h.count hnot]
  simp only [hd, if_true]
  rw [h.faces.readFaces?_append ht]
  rfl

/-- A number without the letter of a die behind it begins no dice lexeme. -/
theorem DiceLexeme.read?_eq_none {digits : Text} (h : ∀ c ∈ digits, isDigit c = true)
    (ht : NotAhead isDigit tail) (hd : NotAhead (fun c => c == 'd' || c == 'D') tail) :
    DiceLexeme.read? (digits ++ tail) = none := by
  rw [DiceLexeme.read?, dropWhile_append h ht]
  cases tail with
  | nil => rfl
  | cons c rest =>
    have hletter := hd c rfl
    simp only [hletter]
    rfl

/-! ## Operators -/

theorem mem_of_readOperator? {c : Char} (h : readOperator? text = some (c, rest)) :
    c ∈ operatorChars := by
  rw [readOperator?.eq_def] at h
  split at h
  · split at h
    · rename_i hmem
      cases h
      exact List.contains_iff_mem.1 hmem
    · cases h
  · cases h

/-! ## Arguments of modifiers -/

/-- The parts of a selecting argument are those that the notation allows. -/
structure SidedCount.IsWritten (a : SidedCount) : Prop where
  letter : ∀ c, a.letter = some c → c ∈ sideLetters
  digits : IsRun a.digits

/-- The parts of a comparing argument are those that the notation allows. -/
structure ComparedTarget.IsWritten (a : ComparedTarget) : Prop where
  comparison : ∃ order equality : Option Char, a.comparison = order.toList ++ equality.toList ∧
    (∀ c, order = some c → c ∈ ['<', '>']) ∧ ∀ c, equality = some c → c ∈ ['=']
  digits : IsRun a.digits

theorem mem_of_readOneOf {chars : List Char} {c : Char} (h : (readOneOf chars text).1 = some c) :
    c ∈ chars := by
  rw [readOneOf.eq_def] at h
  split at h
  · split at h
    · rename_i hmem
      cases h
      exact List.contains_iff_mem.1 hmem
    · cases h
  · cases h

theorem readOneOf_of_notAhead {chars : List Char} (h : NotAhead chars.contains tail) :
    readOneOf chars tail = (none, tail) := by
  cases tail with
  | nil => rfl
  | cons c rest => rw [readOneOf, if_neg (Bool.eq_false_iff.1 (h c rfl))]

/-- An optional character is found in front of a text that does not begin with another. -/
theorem readOneOf_toList_append {chars : List Char} {letter : Option Char}
    (h : ∀ c, letter = some c → c ∈ chars) (ht : NotAhead chars.contains tail) :
    readOneOf chars (letter.toList ++ tail) = (letter, tail) := by
  cases letter with
  | some c =>
    have hmem : chars.contains c = true := List.contains_iff_mem.2 (h c rfl)
    rw [Option.toList_some, List.singleton_append, readOneOf, if_pos hmem]
  | none =>
    rw [Option.toList_none, List.nil_append]
    exact readOneOf_of_notAhead ht

theorem SidedCount.read?_isWritten {a : SidedCount} (h : SidedCount.read? text = some (a, rest)) :
    a.IsWritten := by
  simp only [SidedCount.read?, Option.map_eq_some_iff, Prod.mk.injEq, Prod.exists] at h
  obtain ⟨digits, after, hdigits, rfl, rfl⟩ := h
  exact ⟨fun _ => mem_of_readOneOf, readDigits?_isRun hdigits⟩

/-- The characters that can stand in an argument before its digits. -/
def argumentMarks : List Char := sideLetters ++ ['<', '>', '=']

/-- Whether an argument can begin with the character. -/
def isArgumentChar (c : Char) : Bool :=
  isDigit c || argumentMarks.contains c

theorem NotAhead.isDigit_of_argument (h : NotAhead isArgumentChar tail) :
    NotAhead isDigit tail := by
  intro c hc
  exact (Bool.or_eq_false_iff.1 (h c hc)).1

theorem NotAhead.contains_of_argument (h : NotAhead isArgumentChar tail) {chars : List Char}
    (hsub : chars ⊆ argumentMarks) : NotAhead chars.contains tail := by
  intro c hc
  have hmarks := (Bool.or_eq_false_iff.1 (h c hc)).2
  refine Bool.eq_false_iff.2 fun hmem => Bool.eq_false_iff.1 hmarks ?_
  exact List.contains_iff_mem.2 (hsub (List.contains_iff_mem.1 hmem))

theorem IsRun.notAhead {digits : Text} (h : IsRun digits) {p : Char → Bool}
    (hp : ∀ c, isDigit c = true → p c = false) : NotAhead p (digits ++ tail) := by
  obtain ⟨c, rest, rfl, hc⟩ := h.head
  exact notAhead_cons (hp c hc)

theorem eq_false_of_any_eq_false {isMember : Char → Bool} {chars : List Char} {c : Char}
    (h : chars.any isMember = false) (hc : c ∈ chars) : isMember c = false :=
  Bool.eq_false_iff.2 (List.any_eq_false.1 h c hc)

theorem not_contains_of_isDigit {chars : List Char} (h : chars.any isDigit = false) (c : Char)
    (hc : isDigit c = true) : chars.contains c = false := by
  refine Bool.eq_false_iff.2 fun hmem => Bool.eq_false_iff.1 ?_ hc
  exact eq_false_of_any_eq_false h (List.contains_iff_mem.1 hmem)

theorem readOneOf_append_right {chars : List Char} (text : Text)
    (ht : NotAhead chars.contains tail) :
    readOneOf chars (text ++ tail) =
      ((readOneOf chars text).1, (readOneOf chars text).2 ++ tail) := by
  cases text with
  | nil => exact readOneOf_of_notAhead ht
  | cons c text =>
    rw [List.cons_append, readOneOf, readOneOf]
    split <;> rfl

theorem SidedCount.IsWritten.read?_append {a : SidedCount} (h : a.IsWritten)
    (ht : NotAhead isDigit tail) : SidedCount.read? (a.text ++ tail) = some (a, tail) := by
  have hside : NotAhead sideLetters.contains (a.digits ++ tail) :=
    h.digits.notAhead (not_contains_of_isDigit (by decide))
  rw [SidedCount.read?, SidedCount.text, List.append_assoc,
    readOneOf_toList_append h.letter hside]
  simp only [h.digits.readDigits?_append ht, Option.map_some]

theorem SidedCount.read?_eq_none (ht : NotAhead isArgumentChar tail) :
    SidedCount.read? tail = none := by
  have hside : NotAhead sideLetters.contains tail :=
    ht.contains_of_argument (List.subset_append_left _ _)
  rw [SidedCount.read?, readOneOf_of_notAhead hside]
  simp only [readDigits?_eq_none ht.isDigit_of_argument, Option.map_none]

/-- A written argument is told apart from what follows it. -/
theorem SidedCount.IsWritten.append_inj {a a' : SidedCount} (h : a.IsWritten) (h' : a'.IsWritten)
    (hr : NotAhead isDigit rest) (ht : NotAhead isDigit tail)
    (heq : a.text ++ rest = a'.text ++ tail) : a = a' ∧ rest = tail := by
  have hread := h.read?_append hr
  rw [heq, h'.read?_append ht] at hread
  cases hread
  exact ⟨rfl, rfl⟩

theorem SidedCount.read?_append_right (text : Text) (ht : NotAhead isArgumentChar tail) :
    SidedCount.read? (text ++ tail) =
      (SidedCount.read? text).map fun (a, rest) => (a, rest ++ tail) := by
  have hside : NotAhead sideLetters.contains tail :=
    ht.contains_of_argument (List.subset_append_left _ _)
  rw [SidedCount.read?, SidedCount.read?, readOneOf_append_right text hside]
  simp only [readDigits?_append_right _ ht.isDigit_of_argument, Option.map_map]
  rfl

theorem ComparedTarget.read?_isWritten {a : ComparedTarget}
    (h : ComparedTarget.read? text = some (a, rest)) : a.IsWritten := by
  simp only [ComparedTarget.read?, Option.map_eq_some_iff, Prod.mk.injEq, Prod.exists] at h
  obtain ⟨digits, after, hdigits, rfl, rfl⟩ := h
  exact ⟨⟨_, _, rfl, fun _ => mem_of_readOneOf, fun _ => mem_of_readOneOf⟩,
    readDigits?_isRun hdigits⟩

theorem ComparedTarget.IsWritten.read?_append {a : ComparedTarget} (h : a.IsWritten)
    (ht : NotAhead isDigit tail) : ComparedTarget.read? (a.text ++ tail) = some (a, tail) := by
  obtain ⟨⟨order, equality, heq, horder, hequality⟩, hrun⟩ := h
  obtain ⟨comparison, digits⟩ := a
  obtain rfl : comparison = order.toList ++ equality.toList := heq
  -- Neither sign is taken for the other one, nor a digit for a sign.
  have hdigits : NotAhead ['='].contains (digits ++ tail) :=
    hrun.notAhead (not_contains_of_isDigit (by decide))
  have hsign : NotAhead ['<', '>'].contains (equality.toList ++ (digits ++ tail)) := by
    cases equality with
    | none => exact hrun.notAhead (not_contains_of_isDigit (by decide))
    | some c =>
      obtain rfl : c = '=' := List.mem_singleton.1 (hequality c rfl)
      exact notAhead_cons (by decide)
  rw [ComparedTarget.read?, ComparedTarget.text, List.append_assoc, List.append_assoc,
    readOneOf_toList_append horder hsign]
  simp only [readOneOf_toList_append hequality hdigits, hrun.readDigits?_append ht,
    Option.map_some]

theorem ComparedTarget.read?_eq_none (ht : NotAhead isArgumentChar tail) :
    ComparedTarget.read? tail = none := by
  have horder : NotAhead ['<', '>'].contains tail := ht.contains_of_argument (by decide)
  have hequality : NotAhead ['='].contains tail := ht.contains_of_argument (by decide)
  rw [ComparedTarget.read?, readOneOf_of_notAhead horder]
  simp only [readOneOf_of_notAhead hequality, readDigits?_eq_none ht.isDigit_of_argument,
    Option.map_none]

theorem ComparedTarget.IsWritten.append_inj {a a' : ComparedTarget} (h : a.IsWritten)
    (h' : a'.IsWritten) (hr : NotAhead isDigit rest) (ht : NotAhead isDigit tail)
    (heq : a.text ++ rest = a'.text ++ tail) : a = a' ∧ rest = tail := by
  have hread := h.read?_append hr
  rw [heq, h'.read?_append ht] at hread
  cases hread
  exact ⟨rfl, rfl⟩

theorem ComparedTarget.read?_append_right (text : Text) (ht : NotAhead isArgumentChar tail) :
    ComparedTarget.read? (text ++ tail) =
      (ComparedTarget.read? text).map fun (a, rest) => (a, rest ++ tail) := by
  have horder : NotAhead ['<', '>'].contains tail := ht.contains_of_argument (by decide)
  have hequality : NotAhead ['='].contains tail := ht.contains_of_argument (by decide)
  rw [ComparedTarget.read?, ComparedTarget.read?, readOneOf_append_right text horder]
  simp only [readOneOf_append_right _ hequality, readDigits?_append_right _ ht.isDigit_of_argument,
    Option.map_map]
  rfl

/-! ## Blanks -/

theorem IsRun.isSolid {digits : Text} (h : IsRun digits) : IsSolid digits :=
  ⟨h.ne_nil, fun c hc => isBlank_eq_false_of_isDigit (h.all c hc)⟩

theorem IsFaces.isSolid {faces : Text} (h : IsFaces faces) : IsSolid faces := by
  rcases h with hrun | rfl
  · exact hrun.isSolid
  · have hblank : fudgeFaces.any isBlank = false := by decide
    exact ⟨List.cons_ne_nil _ _, fun c hc => eq_false_of_any_eq_false hblank hc⟩

theorem DiceLexeme.IsWritten.isSolid {d : DiceLexeme} (h : d.IsWritten) : IsSolid d.text := by
  refine ⟨List.append_ne_nil_of_right_ne_nil _ (List.cons_ne_nil _ _), fun c hc => ?_⟩
  rcases List.mem_append.1 hc with hcount | hletter
  · exact isBlank_eq_false_of_isDigit (h.count c hcount)
  · rcases List.mem_cons.1 hletter with rfl | hfaces
    · rcases h.letter with heq | heq <;> rw [heq] <;> decide
    · exact h.faces.isSolid.all c hfaces

theorem isBlank_eq_false_of_mem {chars : List Char} {letter : Option Char}
    (hchars : chars.any isBlank = false) (h : ∀ c, letter = some c → c ∈ chars) :
    ∀ c ∈ letter.toList, isBlank c = false := by
  intro c hc
  exact eq_false_of_any_eq_false hchars (h c (Option.mem_toList.1 hc))

theorem SidedCount.IsWritten.isBlank_eq_false {a : SidedCount} (h : a.IsWritten) :
    ∀ c ∈ a.text, isBlank c = false := by
  intro c hc
  rcases List.mem_append.1 hc with hletter | hdigits
  · exact isBlank_eq_false_of_mem (by decide) h.letter c hletter
  · exact h.digits.isSolid.all c hdigits

theorem ComparedTarget.IsWritten.isBlank_eq_false {a : ComparedTarget} (h : a.IsWritten) :
    ∀ c ∈ a.text, isBlank c = false := by
  obtain ⟨order, equality, heq, horder, hequality⟩ := h.comparison
  intro c hc
  rw [ComparedTarget.text, heq] at hc
  rcases List.mem_append.1 hc with hcomparison | hdigits
  · rcases List.mem_append.1 hcomparison with hsign | hsign
    · exact isBlank_eq_false_of_mem (by decide) horder c hsign
    · exact isBlank_eq_false_of_mem (by decide) hequality c hsign
  · exact h.digits.isSolid.all c hdigits

/-! ## Breaks -/

/-- What may stand directly behind a value: the separators and the operators. -/
def breakChars : List Char := [' ', '\t', '\r', '\n'] ++ operatorChars

/-- Nothing, a separator or an operator is next. -/
def BreakAhead (text : Text) : Prop :=
  NotAhead (fun c => !breakChars.contains c) text

theorem breakAhead_cons {c : Char} (h : c ∈ breakChars) : BreakAhead (c :: rest) := by
  refine notAhead_cons ?_
  rw [List.contains_iff_mem.2 h]
  rfl

theorem breakAhead_of_isSeparator {run : Text} (h : ∀ c ∈ run, isSeparator c = true)
    (hne : run ≠ []) (text : Text) : BreakAhead (run ++ text) := by
  obtain ⟨c, run, rfl⟩ := List.exists_cons_of_ne_nil hne
  have hc := h c List.mem_cons_self
  simp only [isSeparator, Bool.or_eq_true, beq_iff_eq] at hc
  rcases hc with ((rfl | rfl) | rfl) | rfl <;> exact breakAhead_cons (by decide)

theorem SpaceAhead.breakAhead (h : SpaceAhead tail) : BreakAhead tail :=
  h.notAhead (by decide)

/-- No break is a digit, or could go on a lexeme or a suffix. -/
theorem BreakAhead.notAhead {isMember : Char → Bool} (h : BreakAhead tail)
    (hbreaks : breakChars.any isMember = false) : NotAhead isMember tail := by
  intro c hc
  have hmem : breakChars.contains c = true := by
    have := h c hc
    rwa [Bool.not_eq_false'] at this
  exact eq_false_of_any_eq_false hbreaks (List.contains_iff_mem.1 hmem)

end DiceNotation
