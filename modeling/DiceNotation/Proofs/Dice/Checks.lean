import DiceNotation.Proofs.Dice.Notation

/-!
# The checks of a group

The notation of a group is checked in eight ways: the count in three, the faces in two and the
options in three. Each check is stated here by itself, on the text as it was written, and the faults
that apply are listed in the order of the checks (`Group.faults`). A group is built of every count
in digits, be there none, and of all faces that are digits or the letter of the special die. It has
the first of these faults (`Group.create_error_eq_head?`).

Building goes no further than the first fault, and the group keeps what was understood up to there:
the count unless it is too long, and the faces if neither they nor the count are at fault.
-/

namespace DiceNotation

namespace Group

/-! ## Faults -/

/-- The fault, if the condition holds. -/
def faultIf (condition : Prop) [Decidable condition] (fault : GroupError) : List GroupError :=
  if condition then [fault] else []

/-- How many dice a count asks for: the number it denotes, or one if nothing is written. -/
def diceAsked (count : Text) : Nat :=
  if count = [] then 1 else numeralValue count

/-- What is wrong with a count in digits. -/
def countFaults (count : Text) : List GroupError :=
  faultIf (9 < (significant count).length) .countTooLong ++
    faultIf (diceAsked count = 0) .noDice ++
    faultIf (999 < diceAsked count) (.tooManyDice (diceAsked count))

/-- What is wrong with faces: nothing with the letter of the special die, and else they are
digits. -/
def facesFaults (faces : Text) : List GroupError :=
  faultIf (faces ≠ fudgeFaces ∧ 9 < (significant faces).length) .facesTooLong ++
    faultIf (faces ≠ fudgeFaces ∧ numeralValue faces < 2) .tooFewFaces

/-- What is wrong with the options of `dice` dice: the text as such, or a selection that leaves no
die or asks for more than there are. -/
def optionFaults (options : Options) (dice : Nat) : List GroupError :=
  options.error.toList.map (.badOptions options.text) ++
    (options.drop?.toList.filter fun dropped => dice ≤ dropped).map (.dropsAll · dice) ++
    (options.keep?.toList.filter fun kept => dice < kept).map (.keepsMore · dice)

/-- All that is wrong with a group, in the order in which it is looked for. -/
def faults (count faces suffix : Text) : List GroupError :=
  countFaults count ++ facesFaults faces ++ optionFaults (.parse suffix) (diceAsked count)

variable {count faces suffix : Text}

/-! ## The first fault of each part -/

theorem head?_faultIf (condition : Prop) [Decidable condition] (fault : GroupError) :
    (faultIf condition fault).head? = if condition then some fault else none := by
  rw [faultIf]
  split <;> rfl

theorem read_countText (h : ∀ c ∈ count, isDigit c = true) :
    Numeral.read groupDigits (countText count) =
      if 9 < (significant count).length then .tooLong else .value (diceAsked count) := by
  rw [countText, diceAsked]
  cases count with
  | nil => decide
  | cons c digits => exact Numeral.read_of_isDigit (List.cons_ne_nil c digits) h

/-- What is kept of a count, and its first fault. -/
theorem readCount_countText (h : ∀ c ∈ count, isDigit c = true) :
    readCount (countText count) =
      (if 9 < (significant count).length then 0 else diceAsked count,
        (countFaults count).head?) := by
  rw [readCount, read_countText h]
  simp only [countFaults, List.head?_append, head?_faultIf]
  by_cases hlong : 9 < (significant count).length
  · simp only [if_pos hlong, Option.some_or]
  · simp only [if_neg hlong, Option.none_or, Nat.lt_one_iff]
    by_cases hzero : diceAsked count = 0
    · simp only [if_pos hzero, Option.some_or]
    · simp only [if_neg hzero, Option.none_or]
      rfl

/-- What the faces of a group are understood as, if they and its count have no fault. -/
def facesAsked (faces : Text) : Faces :=
  if faces = fudgeFaces then .word faces else .number (numeralValue faces)

/-- Faces are understood if they have no fault; otherwise the first one is reported. -/
theorem readFaces_of_isFaces (h : IsFaces faces) :
    readFaces faces = match (facesFaults faces).head? with
      | some fault => .error fault
      | none => .ok (facesAsked faces) := by
  by_cases hword : faces = fudgeFaces
  · rw [hword]
    decide
  · have hrun := h.resolve_right hword
    have hread : Numeral.read groupDigits faces =
        if 9 < (significant faces).length then .tooLong else .value (numeralValue faces) :=
      Numeral.read_of_isDigit hrun.ne_nil hrun.all
    rw [readFaces, hread, facesAsked, if_neg hword]
    simp only [facesFaults, List.head?_append, head?_faultIf, hword, ne_eq, not_false_eq_true,
      true_and]
    by_cases hlong : 9 < (significant faces).length
    · simp only [if_pos hlong, Option.some_or]
    · simp only [if_neg hlong, Option.none_or]
      by_cases hfew : numeralValue faces < 2
      · simp only [if_pos hfew]
      · simp only [if_neg hfew]

/-- Of a setting that is at fault beyond a limit, the first fault. Zero stands for no setting. -/
theorem head?_map_filter {limit : Nat → Prop} [DecidablePred limit] (setting : Option Nat)
    (hzero : ¬limit 0) (fault : Nat → GroupError) :
    ((setting.toList.filter fun count => limit count).map fault).head? =
      if limit (setting.getD 0) then some (fault (setting.getD 0)) else none := by
  cases setting with
  | none => exact (if_neg hzero).symm
  | some count =>
    by_cases hlimit : limit count
    · simp [hlimit]
    · simp [hlimit]

/-- With dice to select from, the options have the first of their faults. -/
theorem optionsFault?_eq_head? (options : Options) {dice : Nat} (hdice : 0 < dice) :
    optionsFault? options dice = (optionFaults options dice).head? := by
  rw [optionsFault?, optionFaults]
  cases options.error with
  | some error => rfl
  | none =>
    have hdropped : (0 < options.dropped ∧ dice ≤ options.dropped) ↔ dice ≤ options.dropped :=
      and_iff_right_of_imp hdice.trans_le
    simp only [hdropped, List.head?_append, Option.toList_none, List.map_nil, List.nil_append,
      head?_map_filter options.drop? (Nat.not_le.2 hdice) (GroupError.dropsAll · dice),
      head?_map_filter options.keep? (Nat.not_lt_zero dice) (GroupError.keepsMore · dice)]
    rw [Options.dropped, Options.kept]
    split <;> rfl

/-! ## Building -/

/-- A count without fault is short enough, and there are dice. -/
theorem of_countFaults_eq_nil (h : countFaults count = []) :
    ¬9 < (significant count).length ∧ 0 < diceAsked count := by
  simp only [countFaults, List.append_eq_nil_iff, faultIf, ite_eq_right_iff, List.cons_ne_nil,
    imp_false] at h
  exact ⟨h.1.1, Nat.pos_of_ne_zero h.1.2⟩

/-- What a group is built to. -/
theorem assemble_eq (hcount : ∀ c ∈ count, isDigit c = true) (hfaces : IsFaces faces)
    (suffix : Text) :
    assemble count faces suffix =
      { dice := if 9 < (significant count).length then 0 else diceAsked count
        faces := if countFaults count = [] ∧ facesFaults faces = [] then facesAsked faces
          else .word faces
        options := .parse suffix
        error := (faults count faces suffix).head? } := by
  rw [assemble, readCount_countText hcount, readFaces_of_isFaces hfaces, faults, List.head?_append,
    List.head?_append]
  -- The first part with a fault ends the building.
  cases hcountFaults : countFaults count with
  | cons fault rest =>
    simp only [List.head?_cons, Option.some_or, reduceCtorEq, false_and, if_false]
  | nil =>
    obtain ⟨hshort, hdice⟩ := of_countFaults_eq_nil hcountFaults
    simp only [if_neg hshort, List.head?_nil, Option.none_or, true_and]
    cases facesFaults faces with
    | cons fault rest => rfl
    | nil => simp only [optionsFault?_eq_head? _ hdice, List.head?_nil, Option.none_or, if_true]

/-- A group is built of every count in digits, of all faces in digits or of the special die, and of
any options. Of the faults that apply to it, its error is the first in the order of the checks, and
it is valid exactly if there is none. It keeps the count unless that is too long, and has understood
the faces if neither they nor the count have a fault. -/
theorem create_error_eq_head? (hcount : ∀ c ∈ count, isDigit c = true) (hfaces : IsFaces faces)
    (suffix : Text) :
    ∃ group, create count faces suffix = .ok group ∧
      group.error = (faults count faces suffix).head? ∧
      (group.isValid = true ↔ faults count faces suffix = []) ∧
      group.dice = (if 9 < (significant count).length then 0 else diceAsked count) ∧
      group.faces = (if faces ≠ fudgeFaces ∧ countFaults count = [] ∧ facesFaults faces = [] then
        .number (numeralValue faces) else .word faces) ∧
      group.options = .parse suffix := by
  refine ⟨_, create_of_isDigit hcount hfaces suffix, ?_⟩
  rw [assemble_eq hcount hfaces]
  refine ⟨rfl, ?_, rfl, ?_, rfl⟩
  · rw [isValid, Option.isNone_iff_eq_none]
    exact List.head?_eq_none_iff
  · rw [facesAsked]
    by_cases hword : faces = fudgeFaces
    · simp only [hword, if_true, ite_self, ne_eq, not_true_eq_false, false_and, if_false]
    · simp only [hword, if_false, ne_eq, not_false_eq_true, true_and]

set_option maxRecDepth 6000 in
/-- Twelve dice in another script, of which thirteen are kept. -/
theorem create_keepsThirteen :
    (∀ c ∈ ['١', '٢'], isDigit c = true) ∧ IsFaces ['٠', '٦'] ∧
      ∃ group, create ['١', '٢'] ['٠', '٦'] ['!', 'k', '1', '3'] = .ok group ∧
        group.error = some (.keepsMore 13 12) ∧ group.dice = 12 ∧ group.faces = .number 6 := by
  have hcount : ∀ c ∈ ['١', '٢'], isDigit c = true := List.all_eq_true.1 (by decide)
  have hfaces : IsFaces ['٠', '٦'] :=
    .inl ⟨List.cons_ne_nil _ _, List.all_eq_true.1 (by decide)⟩
  have hfaults : faults ['١', '٢'] ['٠', '٦'] ['!', 'k', '1', '3'] = [.keepsMore 13 12] := by cbv
  obtain ⟨group, hcreate, herror, -, hdice, hdie, -⟩ :=
    create_error_eq_head? hcount hfaces ['!', 'k', '1', '3']
  rw [hfaults] at herror
  exact ⟨hcount, hfaces, group, hcreate, herror, hdice.trans (by cbv), hdie.trans (by cbv)⟩

end Group

end DiceNotation
