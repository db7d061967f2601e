import DiceNotation.Proofs.Dice.Checks

/-!
# Numbers in appearance only

Some characters look like digits but are none, such as superscripts and circled digits. A word with
one of them among digits or others of its kind is a lookalike of a number (`IsLookalike`). Its looks
get it past the question whether it is a number, and unless it is too long for one it is *misread*
(`IsMisread`): its value is asked for, and there is none. This is the one way in which a group is
not built. Every three texts make a group, unless the count is misread, or it is accepted and the
faces are (`Group.create_misread_or_reported`).

All other texts that are wrong are reported with the group. A count that is no run of digits, and
faces that are neither that nor the letter of the special die, count as words that are not known, or
as too long if they are lookalikes.
-/

namespace DiceNotation

variable {word : Text}

/-! ## Words -/

/-- The word is made of digits and of characters that look like digits, but not of digits alone. -/
def IsLookalike (word : Text) : Prop :=
  (∀ c ∈ word, isDigit c = true ∨ isDigitLike c = true) ∧ ∃ c ∈ word, isDigit c = false

-- The instances are named because a search through all characters would do as well, but not finish.
instance (word : Text) : Decidable (IsLookalike word) :=
  @instDecidableAnd _ _ (List.decidableBAll _ word) (List.decidableBEx _ word)

/-- The word is a lookalike that is not too long for a number of a group. -/
def IsMisread (word : Text) : Prop :=
  IsLookalike word ∧ (significant word).length ≤ 9

instance (word : Text) : Decidable (IsMisread word) :=
  inferInstanceAs (Decidable (_ ∧ _))

theorem looksNumeric_iff :
    looksNumeric word = true ↔
      word ≠ [] ∧ ∀ c ∈ word, isDigit c = true ∨ isDigitLike c = true := by
  simp only [looksNumeric, Bool.and_eq_true, Bool.not_eq_true', List.isEmpty_eq_false_iff,
    List.all_eq_true, Bool.or_eq_true]

theorem IsLookalike.looksNumeric (h : IsLookalike word) : looksNumeric word = true := by
  obtain ⟨hlooks, c, hc, -⟩ := h
  exact looksNumeric_iff.2 ⟨List.ne_nil_of_mem hc, hlooks⟩

/-- A word that looks like a number is a run of digits or a lookalike. -/
theorem isLookalike_of_not_isRun (hlooks : looksNumeric word = true) (hrun : ¬IsRun word) :
    IsLookalike word := by
  obtain ⟨hne, hall⟩ := looksNumeric_iff.1 hlooks
  refine ⟨hall, ?_⟩
  by_contra hdigits
  push Not at hdigits
  exact hrun ⟨hne, fun c hc => eq_true_of_ne_false (hdigits c hc)⟩

theorem IsLookalike.not_forall_isDigit (h : IsLookalike word) : ¬∀ c ∈ word, isDigit c = true := by
  obtain ⟨-, c, hc, hother⟩ := h
  exact fun hdigits => Bool.false_ne_true (hother.symm.trans (hdigits c hc))

theorem isUndefinedNumeral_iff : isUndefinedNumeral groupDigits word = true ↔ IsMisread word := by
  rw [isUndefinedNumeral, Bool.and_eq_true, Bool.and_eq_true, decide_eq_true_eq,
    Bool.not_eq_true', ← Bool.not_eq_true, List.all_eq_true]
  constructor
  · rintro ⟨⟨hlooks, hshort⟩, hother⟩
    exact ⟨isLookalike_of_not_isRun hlooks fun hrun => hother hrun.all, hshort⟩
  · rintro ⟨hlookalike, hshort⟩
    exact ⟨⟨hlookalike.looksNumeric, hshort⟩, hlookalike.not_forall_isDigit⟩

/-- What is neither a run of digits nor misread is a lookalike that is too long, or a mere word. -/
theorem read_of_not_isMisread (hrun : ¬IsRun word) (h : ¬IsMisread word) :
    Numeral.read groupDigits word = if IsLookalike word then .tooLong else .word := by
  rw [Numeral.read]
  by_cases hlookalike : IsLookalike word
  · have hlong : groupDigits < (significant word).length :=
      Nat.lt_of_not_le fun hshort => h ⟨hlookalike, hshort⟩
    rw [hlookalike.looksNumeric, if_pos hlookalike, Bool.not_true, if_neg Bool.false_ne_true,
      if_pos hlong]
  · have hlooks : looksNumeric word = false :=
      Bool.eq_false_iff.2 fun hlooks => hlookalike (isLookalike_of_not_isRun hlooks hrun)
    rw [hlooks, if_neg hlookalike, Bool.not_false, if_pos rfl]

/-! ## Groups -/

namespace Group

variable {count faces : Text}

/-- The count is in digits, be there none, and has no fault. -/
def IsAccepted (count : Text) : Prop :=
  (∀ c ∈ count, isDigit c = true) ∧ countFaults count = []

theorem readCount_of_not_isMisread (hne : count ≠ []) (hrun : ¬IsRun count)
    (h : ¬IsMisread count) :
    readCount (countText count) =
      (0, some (if IsLookalike count then .countTooLong else .noDice)) := by
  have htext : countText count = count := by
    rw [countText, if_neg (mt List.isEmpty_iff.1 hne)]
  rw [readCount, htext, read_of_not_isMisread hrun h]
  by_cases hlookalike : IsLookalike count
  · simp only [if_pos hlookalike]
  · simp only [if_neg hlookalike]

/-- Unless it is misread, a count is read without a fault just if it is accepted. -/
theorem readCount_eq_none_iff (h : ¬IsMisread count) :
    (readCount (countText count)).2 = none ↔ IsAccepted count := by
  by_cases hdigits : ∀ c ∈ count, isDigit c = true
  · rw [readCount_countText hdigits, List.head?_eq_none_iff, IsAccepted, and_iff_right hdigits]
  · have hne : count ≠ [] := by
      rintro rfl
      exact hdigits (List.forall_mem_nil _)
    have hread := readCount_of_not_isMisread hne (fun hrun => hdigits hrun.all) h
    rw [hread]
    exact iff_of_false nofun fun haccepted => hdigits haccepted.1

theorem readFaces_of_not_isMisread (hfaces : ¬IsFaces faces) (h : ¬IsMisread faces) :
    readFaces faces = .error (if IsLookalike faces then .facesTooLong else .unknownDie faces) := by
  obtain ⟨hrun, hword⟩ := not_or.1 hfaces
  rw [readFaces, read_of_not_isMisread hrun h]
  by_cases hlookalike : IsLookalike faces
  · simp only [if_pos hlookalike]
  · simp only [if_neg hlookalike, beq_iff_eq, if_neg hword]

theorem IsAccepted.not_isMisread (h : IsAccepted count) : ¬IsMisread count :=
  fun hmisread => hmisread.1.not_forall_isDigit h.1

variable {suffix : Text} {fault : GroupError}

theorem error_assemble_of_readCount (h : (readCount (countText count)).2 = some fault) :
    (assemble count faces suffix).error = some fault := by
  rcases hcount : readCount (countText count) with ⟨dice, _ | other⟩
  · rw [hcount] at h
    cases h
  · rw [hcount] at h
    cases h
    simp only [assemble, hcount]

theorem error_assemble_of_readFaces (hcount : (readCount (countText count)).2 = none)
    (hfaces : readFaces faces = .error fault) :
    (assemble count faces suffix).error = some fault := by
  rcases hread : readCount (countText count) with ⟨dice, _ | other⟩
  · simp only [assemble, hread, hfaces]
  · rw [hread] at hcount
    cases hcount

/-- The building of a group breaks down on a count that is misread, and on faces that are misread
behind a count that is accepted. From all other texts a group is built, which reports what is wrong
with them: a count that is no number at all, and behind an accepted count the faces that are neither
a number nor a special die. A lookalike that is too long to be misread is reported as too long. -/
theorem create_misread_or_reported (count faces suffix : Text) :
    (IsMisread count → create count faces suffix = .error ⟨count⟩) ∧
      (IsAccepted count → IsMisread faces → create count faces suffix = .error ⟨faces⟩) ∧
      (¬IsMisread count → ¬(IsAccepted count ∧ IsMisread faces) →
        ∃ group, create count faces suffix = .ok group ∧
          (count ≠ [] → ¬IsRun count → group.error.map GroupError.message =
            some (if IsLookalike count then "Too many dice (max 999)"
              else "Invalid number of dice")) ∧
          (IsAccepted count → ¬IsFaces faces → group.error.map GroupError.message =
            some (if IsLookalike faces then "Too many faces (max 9 digits)"
              else "Invalid dice type: " ++ String.ofList faces))) := by
  refine ⟨fun hcount => ?_, fun hcount hfaces => ?_, fun hcount hfaces => ?_⟩
  · rw [create, if_pos (isUndefinedNumeral_iff.2 hcount)]
  · have hread := (readCount_eq_none_iff hcount.not_isMisread).2 hcount
    rw [create, if_neg (mt isUndefinedNumeral_iff.1 hcount.not_isMisread), hread,
      isUndefinedNumeral_iff.2 hfaces]
    rfl
  · have hdefined : ¬((readCount (countText count)).2.isNone &&
        isUndefinedNumeral groupDigits faces) = true := by
      rw [Bool.and_eq_true, Option.isNone_iff_eq_none, readCount_eq_none_iff hcount,
        isUndefinedNumeral_iff]
      exact hfaces
    refine ⟨assemble count faces suffix, ?_, fun hne hrun => ?_, fun haccepted hword => ?_⟩
    · rw [create, if_neg (mt isUndefinedNumeral_iff.1 hcount), if_neg hdefined]
    · have hread := congrArg Prod.snd (readCount_of_not_isMisread hne hrun hcount)
      rw [error_assemble_of_readCount hread, Option.map_some]
      split <;> rfl
    · have hread := readFaces_of_not_isMisread hword fun hmisread => hfaces ⟨haccepted, hmisread⟩
      have hnone := (readCount_eq_none_iff hcount).2 haccepted
      rw [error_assemble_of_readFaces hnone hread, Option.map_some]
      split <;> rfl

/-- A superscript is misread as a count and as faces; a fraction is no number of dice. -/
theorem create_superscriptTwo :
    IsMisread ['²'] ∧ create ['²'] ['6'] [] = .error ⟨['²']⟩ ∧
      IsAccepted ['2'] ∧ create ['2'] ['²'] [] = .error ⟨['²']⟩ ∧
      ∃ group, create ['½'] ['6'] [] = .ok group ∧
        group.error.map GroupError.message = some "Invalid number of dice" := by
  have hmisread : IsMisread ['²'] := by decide
  have haccepted : IsAccepted ['2'] := ⟨List.forall_mem_singleton.2 (by decide), by cbv⟩
  have hword : ¬IsMisread ['½'] := by decide
  have hrun : ¬IsRun ['½'] := fun h => absurd (h.all '½' List.mem_cons_self) (by decide)
  have hfaces : ¬IsMisread ['6'] := by decide
  obtain ⟨group, hgroup, herror, -⟩ :=
    (create_misread_or_reported ['½'] ['6'] []).2.2 hword fun h => hfaces h.2
  refine ⟨hmisread, (create_misread_or_reported ['²'] ['6'] []).1 hmisread, haccepted,
    (create_misread_or_reported ['2'] ['²'] []).2.1 haccepted hmisread, group, hgroup, ?_⟩
  rw [herror (List.cons_ne_nil _ _) hrun, if_neg (by decide)]

end Group

end DiceNotation
