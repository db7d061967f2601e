import DiceNotation.Proofs.Dice.Lookalike
import DiceNotation.Proofs.Modifier.Fault
import DiceNotation.Proofs.Request.Layout
import Mathlib

/-!
# Spellings of a number

A number can be written in digits of many scripts, and with any zeros in front. How it is written
does not count, as a count of dice, as faces, as an argument or as a constant, except for its length
behind the ASCII zeros in front: zeros of other scripts are significant, and so a number that is
small enough may be refused as too long. Two spellings of a number are therefore interchangeable
just if both keep to the limit, or neither does (`spellings_interchangeable_iff`), and that is so if
neither begins with a zero of another script (`agreeWithin_of_not_leadsWithForeignZero`).

Wherever a number is read, the proof is in two parts. Nothing is asked of the digits but whether
they are too many and, if not, what they denote. And whether they are too many can be told from what
is reported, or from what is read.

What is read keeps the texts of faces that are not understood and of options. They are left out of
the comparison (`Group.understood`).
-/

namespace DiceNotation

/-! ## Runs that denote the same number -/

/-- Both runs, or neither of them, have few enough significant digits for the limit. -/
def AgreeWithin (limit : Nat) (a b : Text) : Prop :=
  (significant a).length ≤ limit ↔ (significant b).length ≤ limit

instance (limit : Nat) (a b : Text) : Decidable (AgreeWithin limit a b) :=
  inferInstanceAs (Decidable (_ ↔ _))

/-- Behind the ASCII zeros in front there is a zero of another script. -/
def LeadsWithForeignZero (digits : Text) : Prop :=
  ∃ c, (significant digits).head? = some c ∧ digitValue? c = some 0

variable {a b : Text} {limit : Nat}

theorem agreeWithin_iff_lt :
    AgreeWithin limit a b ↔ (limit < (significant a).length ↔ limit < (significant b).length) := by
  rw [AgreeWithin, ← Nat.not_lt, ← Nat.not_lt, not_iff_not]

/-- Reading digits on top of a number shifts the number. -/
theorem mul_natPow_le_foldl (digits : Text) (n : Nat) :
    n * natPow 10 digits.length ≤
      digits.foldl (fun n c => 10 * n + (digitValue? c).getD 0) n := by
  induction digits generalizing n with
  | nil => simp
  | cons c digits ih =>
    rw [List.foldl_cons, List.length_cons, natPow_succ]
    calc n * (natPow 10 digits.length * 10)
        = 10 * n * natPow 10 digits.length := by ring
      _ ≤ (10 * n + (digitValue? c).getD 0) * natPow 10 digits.length :=
        Nat.mul_le_mul_right _ (Nat.le_add_right _ _)
      _ ≤ _ := ih _

theorem natPow_le_numeralValue {c : Char} {n : Nat} (hc : digitValue? c = some (n + 1))
    (digits : Text) : natPow 10 digits.length ≤ numeralValue (c :: digits) := by
  rw [numeralValue, List.foldl_cons, hc, Option.getD_some]
  calc natPow 10 digits.length ≤ (10 * 0 + (n + 1)) * natPow 10 digits.length :=
        Nat.le_mul_of_pos_left _ (by omega)
    _ ≤ _ := mul_natPow_le_foldl digits _

/-- Without foreign zeros in front, the limit is one on the number itself. -/
theorem length_significant_le_iff (ha : ∀ c ∈ a, isDigit c = true)
    (hzero : ¬LeadsWithForeignZero a) :
    (significant a).length ≤ limit ↔ numeralValue a < natPow 10 limit := by
  refine ⟨numeralValue_lt_of_length, fun h => ?_⟩
  rw [← numeralValue_significant] at h
  cases hsplit : significant a with
  | nil => exact Nat.zero_le limit
  | cons c digits =>
    have hmem : c ∈ a := (List.dropWhile_sublist _).subset (hsplit ▸ List.mem_cons_self)
    obtain ⟨d, hd⟩ := Option.isSome_iff_exists.1 (ha c hmem)
    rw [hsplit] at h
    cases d with
    | zero => exact absurd ⟨c, by rw [hsplit]; rfl, hd⟩ hzero
    | succ n =>
      -- The first digit is not zero, so every digit behind it makes the number ten times as large.
      by_contra hlong
      rw [List.length_cons] at hlong
      have hpow : natPow 10 limit ≤ natPow 10 digits.length :=
        natPow_le_right (by decide) (by omega)
      exact absurd h (Nat.not_lt.2 (hpow.trans (natPow_le_numeralValue hd digits)))

theorem agreeWithin_of_not_leadsWithForeignZero (ha : IsRun a) (hb : IsRun b)
    (hvalue : numeralValue a = numeralValue b) (hza : ¬LeadsWithForeignZero a)
    (hzb : ¬LeadsWithForeignZero b) (limit : Nat) : AgreeWithin limit a b := by
  rw [AgreeWithin, length_significant_le_iff ha.all hza, length_significant_le_iff hb.all hzb,
    hvalue]

theorem AgreeWithin.boundedValue?_eq (h : AgreeWithin limit a b)
    (hvalue : numeralValue a = numeralValue b) : boundedValue? limit a = boundedValue? limit b := by
  rw [boundedValue?, boundedValue?, hvalue]
  exact if_congr (agreeWithin_iff_lt.1 h) rfl rfl

theorem AgreeWithin.read_eq (h : AgreeWithin limit a b) (ha : IsRun a) (hb : IsRun b)
    (hvalue : numeralValue a = numeralValue b) : Numeral.read limit a = Numeral.read limit b := by
  rw [Numeral.read_of_isDigit ha.ne_nil ha.all, Numeral.read_of_isDigit hb.ne_nil hb.all, hvalue]
  exact if_congr (agreeWithin_iff_lt.1 h) rfl rfl

theorem IsRun.ne_fudgeFaces (h : IsRun a) : a ≠ fudgeFaces := by
  rintro rfl
  exact absurd (h.all 'f' List.mem_cons_self) (by decide)

/-! ## What is understood of a group -/

/-- The faces, without the word for them if they are not understood. -/
def Faces.understood : Faces → Faces
  | .number n => .number n
  | .word text => .word (if text = fudgeFaces then text else [])

/-- The options, without the text that they were read from. -/
def Options.understood (options : Options) : Options :=
  { options with text := [] }

/-- The fault, without the text of options that are at fault. -/
def GroupError.understood : GroupError → GroupError
  | .badOptions _ error => .badOptions [] error
  | error => error

namespace Group

/-- All of a group but the texts that it was written with. -/
def understood (group : Group) : Group :=
  { group with
    faces := group.faces.understood
    options := group.options.understood
    error := group.error.map GroupError.understood }

variable {count faces suffix : Text}

/-- The first fault among those of the count, the faces and the options. -/
theorem error_assemble (count faces suffix : Text) :
    (assemble count faces suffix).error =
      (readCount (countText count)).2.or (match readFaces faces with
        | .error fault => some fault
        | .ok _ => optionsFault? (.parse suffix) (readCount (countText count)).1) := by
  rw [assemble]
  cases readCount (countText count) with
  | mk dice fault? =>
    cases fault? with
    | some fault => rfl
    | none => cases readFaces faces <;> rfl

theorem ne_tooLong_of_optionsFault? {options : Options} {dice : Nat} {fault : GroupError}
    (h : optionsFault? options dice = some fault) :
    fault ≠ .countTooLong ∧ fault ≠ .facesTooLong := by
  rw [optionsFault?] at h
  split at h
  · cases h
    simp
  · split at h
    · cases h
      simp
    · split at h <;> cases h
      simp

theorem ne_countTooLong_of_readFaces {fault : GroupError} (h : readFaces faces = .error fault) :
    fault ≠ .countTooLong := by
  rw [readFaces] at h
  split at h
  · cases h
    simp
  · split at h <;> cases h
    simp
  · split at h <;> cases h
    simp

/-! ### Counts -/

theorem countText_of_isRun (ha : IsRun a) : countText a = a := by
  rw [countText, if_neg (mt List.isEmpty_iff.1 ha.ne_nil)]

theorem create_of_isRun (ha : IsRun a) (faces suffix : Text) :
    create a faces suffix =
      if (readCount (countText a)).2.isNone && isUndefinedNumeral groupDigits faces then
        .error ⟨faces⟩
      else .ok (assemble a faces suffix) := by
  rw [create, isUndefinedNumeral_of_isDigit groupDigits ha.all, if_neg Bool.false_ne_true]

theorem create_count_congr (ha : IsRun a) (hb : IsRun b)
    (h : Numeral.read groupDigits a = Numeral.read groupDigits b) (faces suffix : Text) :
    create a faces suffix = create b faces suffix := by
  have hcount : readCount (countText a) = readCount (countText b) := by
    rw [countText_of_isRun ha, countText_of_isRun hb, readCount, readCount, h]
  rw [create_of_isRun ha, create_of_isRun hb, hcount, assemble, assemble, hcount]

/-- A count is too long just if it has too many significant digits. -/
theorem create_countTooLong_iff (ha : IsRun a) (faces suffix : Text) :
    (create a faces suffix).map Group.error = .ok (some .countTooLong) ↔
      9 < (significant a).length := by
  rw [create_of_isRun ha]
  by_cases hlong : 9 < (significant a).length
  · have hfault : (readCount (countText a)).2 = some .countTooLong := by
      simp only [readCount_countText ha.all, countFaults, List.head?_append, head?_faultIf,
        if_pos hlong, Option.some_or]
    rw [hfault]
    refine iff_of_true ?_ hlong
    exact congrArg Except.ok (error_assemble_of_readCount hfault)
  · refine iff_of_false ?_ hlong
    split
    · simp [Except.map]
    · -- What is reported is a fault of the count, of the faces or of the options, and none of them
      -- is that the count is too long.
      intro h
      have herror : (assemble a faces suffix).error = some .countTooLong := Except.ok.inj h
      rw [error_assemble] at herror
      rcases Option.or_eq_some_iff.1 herror with hcount | ⟨-, herror⟩
      · exact readCount_ne_countTooLong ha.all (Nat.le_of_not_lt hlong) hcount
      · split at herror
        · rename_i hfaces
          exact ne_countTooLong_of_readFaces hfaces (Option.some.inj herror)
        · exact (ne_tooLong_of_optionsFault? herror).1 rfl

/-- One run or another as the count makes a difference only if just one of them is too long. -/
theorem create_count_eq_iff (ha : IsRun a) (hb : IsRun b) (hvalue : numeralValue a = numeralValue b)
    (faces suffix : Text) :
    create a faces suffix = create b faces suffix ↔ AgreeWithin 9 a b := by
  constructor
  · intro h
    rw [agreeWithin_iff_lt, ← create_countTooLong_iff ha faces suffix,
      ← create_countTooLong_iff hb faces suffix, h]
  · exact fun h => create_count_congr ha hb (h.read_eq ha hb hvalue) faces suffix

/-! ### Faces -/

theorem readFaces_congr (hb : IsRun b)
    (h : Numeral.read groupDigits a = Numeral.read groupDigits b) : readFaces a = readFaces b := by
  have hread : Numeral.read groupDigits b = _ := Numeral.read_of_isDigit hb.ne_nil hb.all
  rw [readFaces, readFaces, h, hread]
  by_cases hlong : groupDigits < (significant b).length
  · simp only [if_pos hlong]
  · simp only [if_neg hlong]

theorem readFaces_facesTooLong_iff (ha : IsRun a) :
    readFaces a = .error .facesTooLong ↔ 9 < (significant a).length := by
  have hread : Numeral.read groupDigits a = _ := Numeral.read_of_isDigit ha.ne_nil ha.all
  rw [readFaces, hread]
  by_cases hlong : groupDigits < (significant a).length
  · simp only [if_pos hlong]
    exact iff_of_true trivial hlong
  · simp only [if_neg hlong]
    refine iff_of_false ?_ hlong
    split <;> simp

theorem understood_word (ha : IsRun a) : (Faces.word a).understood = .word [] :=
  congrArg Faces.word (if_neg ha.ne_fudgeFaces)

theorem understood_assemble_faces (ha : IsRun a) (hb : IsRun b) (count suffix : Text)
    (h : (readCount (countText count)).2 = none → readFaces a = readFaces b) :
    (assemble count a suffix).understood = (assemble count b suffix).understood := by
  rw [assemble, assemble]
  cases hcount : readCount (countText count) with
  | mk dice fault? =>
    cases fault? with
    | some fault => simp only [understood, understood_word ha, understood_word hb]
    | none =>
      rw [h (by rw [hcount])]
      cases readFaces b with
      | error fault => simp only [understood, understood_word ha, understood_word hb]
      | ok die => rfl

theorem create_of_isRun_faces (ha : IsRun a) (count suffix : Text) :
    create count a suffix =
      if isUndefinedNumeral groupDigits count then .error ⟨count⟩
      else .ok (assemble count a suffix) := by
  rw [create, isUndefinedNumeral_of_isDigit groupDigits ha.all, Bool.and_false,
    if_neg Bool.false_ne_true]

theorem create_faces_congr (ha : IsRun a) (hb : IsRun b) (count suffix : Text)
    (h : (readCount (countText count)).2 = none → readFaces a = readFaces b) :
    (create count a suffix).map understood = (create count b suffix).map understood := by
  rw [create_of_isRun_faces ha, create_of_isRun_faces hb]
  split
  · rfl
  · exact congrArg Except.ok (understood_assemble_faces ha hb count suffix h)

/-- Faces behind an accepted count are too long just if they have too many significant digits. -/
theorem create_facesTooLong_iff (hcount : IsAccepted count) (ha : IsRun a) (suffix : Text) :
    ((create count a suffix).map understood).map Group.error = .ok (some .facesTooLong) ↔
      9 < (significant a).length := by
  have hnone := (readCount_eq_none_iff hcount.not_isMisread).2 hcount
  have hkind : ∀ fault : GroupError, fault.understood = .facesTooLong ↔ fault = .facesTooLong := by
    intro fault
    cases fault <;> exact ⟨fun h => by cases h <;> rfl, fun h => by cases h <;> rfl⟩
  rw [create_of_isRun_faces ha, isUndefinedNumeral_of_isDigit groupDigits hcount.1,
    if_neg Bool.false_ne_true, ← readFaces_facesTooLong_iff ha]
  have herror : (assemble count a suffix).understood.error =
      (assemble count a suffix).error.map GroupError.understood := rfl
  change Except.ok (assemble count a suffix).understood.error = _ ↔ _
  rw [Except.ok.injEq, herror, error_assemble, hnone, Option.none_or, Option.map_eq_some_iff]
  simp only [hkind, exists_eq_right]
  split
  · rename_i fault hfaces
    rw [hfaces, Option.some.injEq, Except.error.injEq]
  · rename_i die hfaces
    rw [hfaces]
    exact iff_of_false (fun h => (ne_tooLong_of_optionsFault? h).2 rfl) nofun

/-- One run or another as the faces makes a difference only if just one of them is too long, and
only if the count is accepted. -/
theorem create_faces_eq_iff (ha : IsRun a) (hb : IsRun b) (hvalue : numeralValue a = numeralValue b)
    (count suffix : Text) :
    (create count a suffix).map understood = (create count b suffix).map understood ↔
      (IsAccepted count → AgreeWithin 9 a b) := by
  constructor
  · intro h hcount
    rw [agreeWithin_iff_lt, ← create_facesTooLong_iff hcount ha suffix,
      ← create_facesTooLong_iff hcount hb suffix, h]
  · intro h
    by_cases hmisread : IsMisread count
    · rw [create_of_isRun_faces ha, create_of_isRun_faces hb, isUndefinedNumeral_iff.2 hmisread]
      rfl
    · refine create_faces_congr ha hb count suffix fun hnone => ?_
      have hagree := h ((readCount_eq_none_iff hmisread).1 hnone)
      exact readFaces_congr hb (hagree.read_eq ha hb hvalue)

/-! ### Options -/

theorem map_understood_optionsFault? (options : Options) (dice : Nat) :
    (optionsFault? options dice).map GroupError.understood =
      optionsFault? options.understood dice := by
  have hkept : options.understood.kept = options.kept := rfl
  have hdropped : options.understood.dropped = options.dropped := rfl
  have herror : options.understood.error = options.error := rfl
  rw [optionsFault?, optionsFault?, hkept, hdropped, herror]
  cases options.error with
  | some error => rfl
  | none =>
    dsimp only
    split
    · rfl
    · split <;> rfl

theorem create_options_congr {suffix other : Text}
    (h : (Options.parse suffix).understood = (Options.parse other).understood)
    (count faces : Text) :
    (create count faces suffix).map understood = (create count faces other).map understood := by
  have hassemble : (assemble count faces suffix).understood =
      (assemble count faces other).understood := by
    rw [assemble, assemble]
    cases readCount (countText count) with
    | mk dice fault? =>
      cases fault? with
      | some fault => simp only [understood, h]
      | none =>
        cases readFaces faces with
        | error fault => simp only [understood, h]
        | ok die => simp only [understood, map_understood_optionsFault?, h]
  rw [create, create]
  split
  · rfl
  split
  · rfl
  · exact congrArg Except.ok hassemble

end Group

/-! ## Arguments -/

namespace WrittenCommand

/-- The command with other digits in its argument, if it has one. -/
def respell (digits : Text) : WrittenCommand → WrittenCommand
  | .explode => .explode
  | .keep a => .keep { a with digits := digits }
  | .drop a => .drop { a with digits := digits }
  | .reroll a => .reroll { a with digits := digits }

/-- The argument of the command is one that can be written, be it too large or zero. -/
def IsWritten : WrittenCommand → Prop
  | .explode => True
  | .keep a | .drop a => a.IsWritten
  | .reroll a => a.IsWritten

/-- What the command is understood as, if its digits denote the number or if they are too many for
one. -/
def understoodAs (number? : Option Nat) : WrittenCommand → Except OptionsError Command
  | .explode => .ok .explode
  | .keep a =>
    match number? with
    | none => .error .argumentTooLarge
    | some 0 => .error (.unusable .keep)
    | some (n + 1) => .ok (.keep (Side.ofLetter .high a.letter) (n + 1))
  | .drop a =>
    match number? with
    | none => .error .argumentTooLarge
    | some 0 => .error (.unusable .drop)
    | some (n + 1) => .ok (.drop (Side.ofLetter .low a.letter) (n + 1))
  | .reroll a =>
    match number? with
    | none => .error .argumentTooLarge
    | some n => .ok (.reroll (RerollRule.ofText a.comparison n))

variable {written : WrittenCommand} {rest : Text}

theorem understoodAs_eq_tooLarge_iff (hne : written ≠ .explode) {number? : Option Nat} :
    written.understoodAs number? = .error .argumentTooLarge ↔ number? = none := by
  cases written with
  | explode => exact absurd rfl hne
  | keep a | drop a =>
    rcases number? with _ | _ | n
    · exact iff_of_true rfl rfl
    · exact iff_of_false nofun nofun
    · exact iff_of_false nofun nofun
  | reroll a =>
    rcases number? with _ | n
    · exact iff_of_true rfl rfl
    · exact iff_of_false nofun nofun

theorem modifier_respell (digits : Text) :
    (written.respell digits).modifier = written.modifier := by
  cases written <;> rfl

/-- Nothing counts of the digits of a command but the number that they denote. -/
theorem read_respell (hwritten : written.IsWritten) (ha : IsRun a) (ht : NotAhead isDigit rest) :
    Command.read written.modifier ((written.respell a).argument ++ rest) =
      (written.understoodAs (boundedValue? argumentDigits a)).map fun command =>
        (command, rest) := by
  cases written with
  | explode => rfl
  | keep argument | drop argument =>
    have hargument : SidedCount.IsWritten ⟨argument.letter, a⟩ := ⟨hwritten.letter, ha⟩
    simp only [modifier, respell, WrittenCommand.argument, Command.read, readSelection,
      hargument.read?_append ht, understoodAs]
    rcases boundedValue? argumentDigits a with _ | _ | n <;> rfl
  | reroll argument =>
    have hargument : ComparedTarget.IsWritten ⟨argument.comparison, a⟩ :=
      ⟨hwritten.comparison, ha⟩
    simp only [modifier, respell, WrittenCommand.argument, Command.read,
      hargument.read?_append ht, understoodAs]
    rcases boundedValue? argumentDigits a with _ | n <;> rfl

/-- One run or another in a command makes a difference only if just one of them is too long. -/
theorem read_respell_eq_iff (hwritten : written.IsWritten) (hne : written ≠ .explode)
    (ha : IsRun a) (hb : IsRun b) (hvalue : numeralValue a = numeralValue b)
    (ht : NotAhead isDigit rest) :
    Command.read written.modifier ((written.respell a).argument ++ rest) =
      Command.read written.modifier ((written.respell b).argument ++ rest) ↔
        AgreeWithin 9 a b := by
  rw [read_respell hwritten ha ht, read_respell hwritten hb ht]
  constructor
  · intro h
    -- The texts behind the two arguments are the same, so it is the commands that agree.
    have hsame : written.understoodAs (boundedValue? argumentDigits a) =
        written.understoodAs (boundedValue? argumentDigits b) := by
      generalize written.understoodAs (boundedValue? argumentDigits a) = x at h
      generalize written.understoodAs (boundedValue? argumentDigits b) = y at h
      cases x <;> cases y <;> cases h <;> rfl
    have hlimit : ∀ digits, written.understoodAs (boundedValue? argumentDigits digits) =
        .error .argumentTooLarge ↔ 9 < (significant digits).length := fun digits =>
      (understoodAs_eq_tooLarge_iff hne).trans boundedValue?_eq_none_iff
    rw [agreeWithin_iff_lt, ← hlimit a, ← hlimit b, hsame]
  · intro h
    rw [(show AgreeWithin argumentDigits a b from h).boundedValue?_eq hvalue]

end WrittenCommand

namespace Options

theorem isArgumentChar_eq_false_of_isCommandChar {c : Char} (hc : isCommandChar c = true) :
    isArgumentChar c = false := by
  obtain ⟨modifier, hmodifier⟩ := Option.isSome_iff_exists.1 hc
  exact eq_false_of_any_eq_false (by decide) (Modifier.mem_commandChars hmodifier)

/-- Where a command begins, the text in front of it has been read, and the command is read on top of
what came into force, unless there was a fault. -/
theorem readAll_append (options : Options) (front : Text) {c : Char} (hc : isCommandChar c = true)
    (more : Text) (hbefore : options.error = none) :
    options.readAll (front ++ c :: more) =
      if (options.readAll front).error = none then (options.readAll front).readAll (c :: more)
      else options.readAll front := by
  have htail : NotAhead (fun c => !isCommandChar c) (c :: more) := notAhead_cons (by rw [hc]; rfl)
  have hargument : NotAhead isArgumentChar (c :: more) :=
    notAhead_cons (isArgumentChar_eq_false_of_isCommandChar hc)
  fun_induction readAll options front with
  | case1 options front skipped hskipped =>
    rw [if_neg (by exact Option.some_ne_none _), readAll]
    simp only [htail.takeWhile_append]
    exact if_pos hskipped
  | case2 options front skipped hskipped hrest =>
    -- All that is in front is blank and is skipped, with the command and without it.
    have hblanks : AllBlank front := by
      have hall : (front.takeWhile fun c => !isCommandChar c) = front := by
        rw [List.takeWhile_eq_self_iff, ← List.dropWhile_eq_nil_iff]
        exact hrest
      exact hall ▸ allBlank_of_skipped hskipped
    obtain ⟨modifier, hmodifier⟩ := Option.isSome_iff_exists.1 hc
    rw [if_pos hbefore, readAll_modifier options hblanks hmodifier more]
    exact (readAll_modifier options (List.forall_mem_nil _) hmodifier more).symm
  | case3 options front skipped hskipped d rest hrest hd =>
    have hcommand := isCommandChar_of_dropWhile hrest
    rw [isCommandChar, hd] at hcommand
    cases hcommand
  | case4 options front skipped hskipped d rest hrest modifier hd error hread =>
    rw [← List.takeWhile_append_dropWhile (p := fun c => !isCommandChar c) (l := front), hrest,
      List.append_assoc, List.cons_append,
      readAll_modifier options (allBlank_of_skipped hskipped) hd,
      Command.read_append_right modifier rest hargument, hread]
    exact (if_neg (Option.some_ne_none _)).symm
  | case5 options front skipped hskipped d rest hrest modifier hd command after hread error
    happly =>
    rw [← List.takeWhile_append_dropWhile (p := fun c => !isCommandChar c) (l := front), hrest,
      List.append_assoc, List.cons_append,
      readAll_modifier options (allBlank_of_skipped hskipped) hd,
      Command.read_append_right modifier rest hargument, hread]
    simp only [Except.map, happly]
    exact (if_neg (Option.some_ne_none _)).symm
  | case6 options front skipped hskipped d rest hrest modifier hd command after hread applied happly
    ih =>
    rw [← List.takeWhile_append_dropWhile (p := fun c => !isCommandChar c) (l := front), hrest,
      List.append_assoc, List.cons_append,
      readAll_modifier options (allBlank_of_skipped hskipped) hd,
      Command.read_append_right modifier rest hargument, hread]
    simp only [Except.map, happly]
    exact ih ((error_of_apply happly).trans hbefore)

variable {written : WrittenCommand} {rest : Text}

/-- A written command with other digits is read, applied, and followed by what is behind it. -/
theorem readAll_respell {digits : Text} (hwritten : written.IsWritten) (hdigits : IsRun digits)
    (ht : NotAhead isDigit rest) (options : Options) :
    options.readAll ((written.respell digits).text ++ rest) =
      match written.understoodAs (boundedValue? argumentDigits digits) with
      | .error e => options.fail e
      | .ok command =>
        match options.apply command with
        | .error e => options.fail e
        | .ok applied => applied.readAll rest := by
  obtain ⟨c, -, hc⟩ := written.exists_ofChar?
  have hchar : Modifier.ofChar? c = some (written.respell digits).modifier := by
    rw [WrittenCommand.modifier_respell, hc]
  have hread := readAll_modifier options (List.forall_mem_nil _) hc
    ((written.respell digits).argument ++ rest)
  rw [WrittenCommand.text_of_ofChar? hchar]
  refine hread.trans ?_
  rw [WrittenCommand.read_respell hwritten hdigits ht]
  cases written.understoodAs (boundedValue? argumentDigits digits) <;> rfl

/-- Options that were read do not depend on the spelling of an argument within the limit. -/
theorem readAll_respell_congr (hwritten : written.IsWritten) (ha : IsRun a) (hb : IsRun b)
    (h : boundedValue? argumentDigits a = boundedValue? argumentDigits b)
    (ht : NotAhead isDigit rest) (options : Options) :
    options.readAll ((written.respell a).text ++ rest) =
      options.readAll ((written.respell b).text ++ rest) := by
  rw [readAll_respell hwritten ha ht, readAll_respell hwritten hb ht, h]

theorem understood_parse (text : Text) : (parse text).understood = readAll { text := [] } text :=
  (readAll_withText { text := text } [] text).symm

/-- In any options, the spelling of one argument does not count within the limit. -/
theorem parse_respell_congr (hwritten : written.IsWritten) (ha : IsRun a) (hb : IsRun b)
    (h : boundedValue? argumentDigits a = boundedValue? argumentDigits b) (front : Text)
    (ht : NotAhead isDigit rest) :
    (parse (front ++ ((written.respell a).text ++ rest))).understood =
      (parse (front ++ ((written.respell b).text ++ rest))).understood := by
  rw [understood_parse, understood_parse]
  have hsame := readAll_respell_congr hwritten ha hb h ht
  obtain ⟨c, htext, hc⟩ := (written.respell a).exists_ofChar?
  obtain ⟨d, htext', hd⟩ := (written.respell b).exists_ofChar?
  simp only [htext, htext', List.cons_append] at hsame ⊢
  rw [readAll_append _ front (isCommandChar_of_ofChar? hc) _ rfl,
    readAll_append _ front (isCommandChar_of_ofChar? hd) _ rfl, hsame]

end Options

/-! ## Constants -/

theorem DiceLexeme.read?_eq_none_congr {rest : Text} (ha : IsRun a) (hb : IsRun b)
    (ht : NotAhead isDigit rest) (h : DiceLexeme.read? (a ++ rest) = none) :
    DiceLexeme.read? (b ++ rest) = none := by
  rw [read?, dropWhile_append ha.all ht] at h
  rw [read?, dropWhile_append hb.all ht]
  cases rest with
  | nil => rfl
  | cons c rest =>
    dsimp only at h ⊢
    split
    · rename_i hd
      rw [if_pos hd] at h
      rw [Option.map_eq_none_iff] at h ⊢
      exact h
    · rfl

namespace Request

variable {request : Request} {rest : Text}

/-- Where one run is a constant, so is another. -/
theorem read?_constant_congr (hb : IsRun b)
    (h : Piece.read? (a ++ rest) = some (.constant a, rest)) :
    Piece.read? (b ++ rest) = some (.constant b, rest) := by
  rw [Piece.read?] at h
  split at h
  · cases h
  · rename_i hdice
    split at h
    · rename_i digits after hdigits
      cases h
      have ht := readDigits?_notAhead hdigits
      rw [Piece.read?, DiceLexeme.read?_eq_none_congr (readDigits?_isRun hdigits) hb ht hdice]
      simp only [hb.readDigits?_append ht]
    · rename_i hdigits
      obtain ⟨found, -, heq⟩ := Option.map_eq_some_iff.1 h
      cases heq

/-- A constant is appended, or ends the scan. -/
theorem scan_constant (request : Request) (ha : IsRun a)
    (h : Piece.read? (a ++ rest) = some (.constant a, rest)) :
    request.scan (a ++ rest) =
      match boundedValue? constantDigits a with
      | some n => (request.addValue (.constant n)).scan rest
      | none => ({ request with error := some .constantTooLarge }, rest) := by
  have hskip : skipSeparators (a ++ rest) = a ++ rest :=
    skipSeparators_of_notAhead (ha.isSolid.notAhead.append ha.ne_nil rest)
  rw [scan, hskip]
  split
  · rename_i hnone
    cases h.symm.trans hnone
  · rename_i hsome
    cases h.symm.trans hsome
    rw [addPiece?]
    cases boundedValue? constantDigits a <;> rfl

theorem length_values_le_scan (request : Request) (text : Text) :
    request.values.length ≤ (request.scan text).1.values.length := by
  refine scan_invariant (fun other => request.values.length ≤ other.values.length) ?_ ?_
    (Nat.le_refl _) text
  · intro before added piece _ hadd hle
    refine hle.trans ?_
    cases piece with
    | dice lexeme modifiers =>
      cases hadd
      simp [addValue]
    | constant digits =>
      obtain ⟨n, -, rfl⟩ := Option.map_eq_some_iff.1 hadd
      simp [addValue]
    | operator c =>
      cases hadd
      exact Nat.le_refl _
  · exact fun _ hle => hle

/-- A constant is too long just if no value is taken from it. -/
theorem length_values_scan_constant (request : Request) (ha : IsRun a)
    (h : Piece.read? (a ++ rest) = some (.constant a, rest)) :
    (request.scan (a ++ rest)).1.values.length = request.values.length ↔
      1000 < (significant a).length := by
  rw [scan_constant request ha h]
  cases hvalue : boundedValue? constantDigits a with
  | none => exact iff_of_true rfl (boundedValue?_eq_none_iff.1 hvalue)
  | some n =>
    have hlong : ¬1000 < (significant a).length :=
      Nat.not_lt.2 (boundedValue?_eq_some_iff.1 hvalue).1
    refine iff_of_false (fun heq => ?_) hlong
    have hle := length_values_le_scan (request.addValue (.constant n)) rest
    simp only [addValue, List.length_append, List.length_singleton] at hle heq
    omega

/-- One run or another as a constant makes a difference only if just one of them is too long. -/
theorem scan_constant_eq_iff (request : Request) (ha : IsRun a) (hb : IsRun b)
    (hvalue : numeralValue a = numeralValue b)
    (h : Piece.read? (a ++ rest) = some (.constant a, rest)) :
    request.scan (a ++ rest) = request.scan (b ++ rest) ↔ AgreeWithin 1000 a b := by
  have hother := read?_constant_congr hb h
  constructor
  · intro hsame
    rw [agreeWithin_iff_lt, ← length_values_scan_constant request ha h,
      ← length_values_scan_constant request hb hother, hsame]
  · intro hagree
    rw [scan_constant request ha h, scan_constant request hb hother,
      (show AgreeWithin constantDigits a b from hagree).boundedValue?_eq hvalue]

end Request

/-! ## Spellings -/

/-- Two spellings of a number are read alike, wherever a number can be written, just if both are
within the limit of digits or neither is. Then one or the other makes the same group as a count of
dice, and as faces or in an argument the same up to the texts that are kept; as a constant it makes
the same request. Behind a count that is not accepted, faces do not count at all. Without zeros of
other scripts in front, all spellings of a number are read alike. -/
theorem spellings_interchangeable_iff (ha : IsRun a) (hb : IsRun b)
    (hvalue : numeralValue a = numeralValue b) :
    (¬LeadsWithForeignZero a → ¬LeadsWithForeignZero b → ∀ limit, AgreeWithin limit a b) ∧
    (∀ faces suffix,
      Group.create a faces suffix = Group.create b faces suffix ↔ AgreeWithin 9 a b) ∧
    (∀ count suffix,
      (Group.create count a suffix).map Group.understood =
        (Group.create count b suffix).map Group.understood ↔
          (Group.IsAccepted count → AgreeWithin 9 a b)) ∧
    (∀ (written : WrittenCommand) (rest : Text), written.IsWritten → written ≠ .explode →
      NotAhead isDigit rest →
        (Command.read written.modifier ((written.respell a).argument ++ rest) =
          Command.read written.modifier ((written.respell b).argument ++ rest) ↔
            AgreeWithin 9 a b) ∧
        (AgreeWithin 9 a b → ∀ count faces front,
          (Group.create count faces (front ++ ((written.respell a).text ++ rest))).map
              Group.understood =
            (Group.create count faces (front ++ ((written.respell b).text ++ rest))).map
              Group.understood)) ∧
    ∀ (request : Request) (rest : Text),
      Piece.read? (a ++ rest) = some (.constant a, rest) →
        (request.scan (a ++ rest) = request.scan (b ++ rest) ↔ AgreeWithin 1000 a b) := by
  refine ⟨agreeWithin_of_not_leadsWithForeignZero ha hb hvalue,
    Group.create_count_eq_iff ha hb hvalue, Group.create_faces_eq_iff ha hb hvalue,
    fun written rest hwritten hne ht => ⟨?_, fun hagree count faces front => ?_⟩,
    fun request rest => Request.scan_constant_eq_iff request ha hb hvalue⟩
  · exact WrittenCommand.read_respell_eq_iff hwritten hne ha hb hvalue ht
  · have hbounded := (show AgreeWithin argumentDigits a b from hagree).boundedValue?_eq hvalue
    exact Group.create_options_congr
      (Options.parse_respell_congr hwritten ha hb hbounded front ht) count faces

/-- A six in Arabic digits, with zeros of the same script in front. -/
def arabicSix (zeros : Nat) : Text :=
  List.replicate zeros '٠' ++ ['٦']

/-- Eight of these zeros are passed over, but with nine the six is too long. -/
theorem spellings_arabicSix :
    IsRun (arabicSix 8) ∧ IsRun (arabicSix 9) ∧ IsRun ['6'] ∧
    numeralValue (arabicSix 8) = numeralValue ['6'] ∧
    numeralValue (arabicSix 9) = numeralValue ['6'] ∧
    (∀ faces suffix,
      Group.create (arabicSix 8) faces suffix = Group.create ['6'] faces suffix) ∧
    (∀ faces suffix,
      Group.create (arabicSix 9) faces suffix ≠ Group.create ['6'] faces suffix) ∧
    (Group.create (arabicSix 9) ['6'] []).map Group.error = .ok (some .countTooLong) ∧
    (Group.create ['6'] ['6'] []).map Group.error = .ok none := by
  have hrun : ∀ zeros, IsRun (arabicSix zeros) := fun zeros =>
    ⟨List.append_ne_nil_of_right_ne_nil _ (List.cons_ne_nil _ _),
      List.forall_mem_append.2 ⟨fun c hc => List.eq_of_mem_replicate hc ▸ by decide,
        List.forall_mem_singleton.2 (by decide)⟩⟩
  have hsix : IsRun ['6'] := ⟨List.cons_ne_nil _ _, List.forall_mem_singleton.2 (by decide)⟩
  have hshort : numeralValue (arabicSix 8) = numeralValue ['6'] := by decide +kernel
  have hlong : numeralValue (arabicSix 9) = numeralValue ['6'] := by decide +kernel
  have hagree : AgreeWithin 9 (arabicSix 8) ['6'] := by decide
  have hdisagree : ¬AgreeWithin 9 (arabicSix 9) ['6'] := by decide
  obtain ⟨-, hcount, -⟩ := spellings_interchangeable_iff (hrun 8) hsix hshort
  obtain ⟨-, hcount', -⟩ := spellings_interchangeable_iff (hrun 9) hsix hlong
  exact ⟨hrun 8, hrun 9, hsix, hshort, hlong, fun faces suffix => (hcount faces suffix).2 hagree,
    fun faces suffix heq => hdisagree ((hcount' faces suffix).1 heq), by decide +kernel,
    by decide +kernel⟩

end DiceNotation
