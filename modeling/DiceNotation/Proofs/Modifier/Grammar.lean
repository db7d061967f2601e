import DiceNotation.Proofs.Modifier.Suffix
import DiceNotation.Proofs.Text.Blank

/-!
# The grammar of options

Options are written as commands with blanks before, between and after them (`IsScript`): a command
is a modifier with the argument that it needs (`WrittenCommand`), and an argument counts if its
number has at most nine significant digits and, where dice are selected, is not zero
(`WrittenCommand.IsAllowed`).

* *What is accepted:* The texts that are understood whole are just those that are written like this
    without both keeping and dropping (`Options.parse_isValid_iff_exists_script`).
* *What it means:* The commands can be read off the options (`Options.Follow`). Of several
    selections the last one counts, and every reroll adds its rule.

Reading goes command by command. One step reads back what was written (`Options.readAll_command`),
and what it reads was written (`exists_written_of_read`); the commands then come into force one
after the other (`Options.applyAll`), which fails just where keeping and dropping meet.
-/

namespace DiceNotation

/-! ## Written commands -/

/-- A modifier as it is written, with its argument. -/
inductive WrittenCommand
  | explode
  | keep (argument : SidedCount)
  | drop (argument : SidedCount)
  | reroll (argument : ComparedTarget)
  deriving DecidableEq

/-- A run of digits with few enough significant ones for an argument. -/
def IsShort (digits : Text) : Prop :=
  (significant digits).length ≤ argumentDigits

instance (digits : Text) : Decidable (IsShort digits) :=
  inferInstanceAs (Decidable ((significant digits).length ≤ argumentDigits))

namespace WrittenCommand

/-- The text behind the character of the command. -/
def argument : WrittenCommand → Text
  | .explode => []
  | .keep a | .drop a => a.text
  | .reroll a => a.text

/-- The command as it is written. -/
def text : WrittenCommand → Text
  | .explode => ['!']
  | .keep a => 'k' :: a.text
  | .drop a => 'd' :: a.text
  | .reroll a => 'r' :: a.text

/-- The argument of the command is one that the notation allows. -/
def IsAllowed : WrittenCommand → Prop
  | .explode => True
  | .keep a | .drop a => a.IsWritten ∧ IsShort a.digits ∧ 1 ≤ numeralValue a.digits
  | .reroll a => a.IsWritten ∧ IsShort a.digits

/-- The kind of the command. -/
def modifier : WrittenCommand → Modifier
  | .explode => .explode
  | .keep _ => .keep
  | .drop _ => .drop
  | .reroll _ => .reroll

/-- How many dice the command keeps, if it does. -/
def kept? : WrittenCommand → Option Nat
  | .keep a => some (numeralValue a.digits)
  | _ => none

/-- How many dice the command drops, if it does. -/
def dropped? : WrittenCommand → Option Nat
  | .drop a => some (numeralValue a.digits)
  | _ => none

/-- The side on which the command selects, if it does: the one that its letter names, or else the
high one for keeping and the low one for dropping. -/
def side? : WrittenCommand → Option Side
  | .keep a => some (if a.letter = some 'l' ∨ a.letter = some 'L' then .low else .high)
  | .drop a => some (if a.letter = some 'h' ∨ a.letter = some 'H' then .high else .low)
  | _ => none

/-- The rule that the command adds, if it does. -/
def rule? : WrittenCommand → Option RerollRule
  | .reroll a => some (RerollRule.ofText a.comparison (numeralValue a.digits))
  | _ => none

/-- The command that is understood. -/
def command : WrittenCommand → Command
  | .explode => .explode
  | .keep a => .keep (Side.ofLetter .high a.letter) (numeralValue a.digits)
  | .drop a => .drop (Side.ofLetter .low a.letter) (numeralValue a.digits)
  | .reroll a => .reroll (RerollRule.ofText a.comparison (numeralValue a.digits))

end WrittenCommand

open WrittenCommand

/-- A text made of the commands, with blanks before, between and after them. No run of digits is cut
short. -/
inductive IsScript : List WrittenCommand → Text → Prop
  | blank {blanks : Text} : AllBlank blanks → IsScript [] blanks
  | cons {blanks rest : Text} {written : WrittenCommand} {commands : List WrittenCommand} :
    AllBlank blanks → written.IsAllowed → NotAhead isDigit rest → IsScript commands rest →
      IsScript (written :: commands) (blanks ++ written.text ++ rest)

/-- No command of the one kind stands beside one of the other. -/
def IsConsistent (commands : List WrittenCommand) : Prop :=
  ¬((∃ a, .keep a ∈ commands) ∧ ∃ a, .drop a ∈ commands)

/-- The options are those that the commands ask for. -/
structure Options.Follow (options : Options) (commands : List WrittenCommand) : Prop where
  exploding : options.exploding = true ↔ .explode ∈ commands
  keep : options.keep? = (commands.filterMap kept?).getLast?
  drop : options.drop? = (commands.filterMap dropped?).getLast?
  highest : options.highest = true ↔ (commands.filterMap side?).getLast? = some .high
  lowest : options.lowest = true ↔ (commands.filterMap side?).getLast? = some .low
  rerolls : options.rerolls = commands.filterMap rule?

/-! ## Reading one command -/

variable {text rest : Text} {written : WrittenCommand} {commands : List WrittenCommand}

/-- A written argument is read back in front of a text that does not prolong its digits. -/
theorem readSelection_append {a : SidedCount} (h : a.IsWritten) (hshort : IsShort a.digits)
    (hpos : 1 ≤ numeralValue a.digits) (ht : NotAhead isDigit rest) (modifier : Modifier)
    (usual : Side) (select : Side → Nat → Command) :
    readSelection modifier usual select (a.text ++ rest) =
      .ok (select (Side.ofLetter usual a.letter) (numeralValue a.digits), rest) := by
  obtain ⟨n, hn⟩ := Nat.exists_eq_add_of_le' hpos
  rw [readSelection, h.read?_append ht]
  simp only [boundedValue?_eq_some_iff.2 ⟨hshort, hn⟩, hn]

/-- What is read as an argument that selects dice was written as one. -/
theorem exists_written_of_readSelection {modifier : Modifier} {usual : Side}
    {select : Side → Nat → Command} {command : Command}
    (h : readSelection modifier usual select text = .ok (command, rest)) :
    ∃ a : SidedCount, (a.IsWritten ∧ IsShort a.digits ∧ 1 ≤ numeralValue a.digits) ∧
      a.text ++ rest = text ∧
      select (Side.ofLetter usual a.letter) (numeralValue a.digits) = command := by
  rw [readSelection] at h
  split at h
  · cases h
  · rename_i a after hread
    split at h
    · cases h
    · cases h
    · rename_i n hvalue
      cases h
      obtain ⟨hshort, hn⟩ := boundedValue?_eq_some_iff.1 hvalue
      exact ⟨a, ⟨SidedCount.read?_isWritten hread, hshort, hn ▸ Nat.succ_pos n⟩,
        SidedCount.read?_append hread, by rw [hn]⟩

/-- A written command is read back from the text behind its character. -/
theorem Command.read_argument_append (h : written.IsAllowed) (ht : NotAhead isDigit rest) :
    Command.read written.modifier (written.argument ++ rest) = .ok (written.command, rest) := by
  cases written with
  | explode => rfl
  | keep a =>
    obtain ⟨hwritten, hshort, hpos⟩ := h
    exact readSelection_append hwritten hshort hpos ht _ _ _
  | drop a =>
    obtain ⟨hwritten, hshort, hpos⟩ := h
    exact readSelection_append hwritten hshort hpos ht _ _ _
  | reroll a =>
    obtain ⟨hwritten, hshort⟩ := h
    simp only [modifier, argument, Command.read, hwritten.read?_append ht,
      boundedValue?_eq_some_iff.2 ⟨hshort, rfl⟩, command]

/-- What is read as a command was written as one. -/
theorem exists_written_of_read {modifier : Modifier} {command : Command}
    (h : Command.read modifier text = .ok (command, rest)) :
    ∃ written : WrittenCommand, written.IsAllowed ∧ written.modifier = modifier ∧
      written.argument ++ rest = text ∧ written.command = command := by
  cases modifier with
  | explode =>
    cases h
    exact ⟨.explode, trivial, rfl, rfl, rfl⟩
  | keep =>
    obtain ⟨a, hallowed, htext, hcommand⟩ := exists_written_of_readSelection h
    exact ⟨.keep a, hallowed, rfl, htext, hcommand⟩
  | drop =>
    obtain ⟨a, hallowed, htext, hcommand⟩ := exists_written_of_readSelection h
    exact ⟨.drop a, hallowed, rfl, htext, hcommand⟩
  | reroll =>
    rw [Command.read] at h
    split at h
    · cases h
    · rename_i a after hread
      split at h
      · cases h
      · rename_i n hvalue
        cases h
        obtain ⟨hshort, rfl⟩ := boundedValue?_eq_some_iff.1 hvalue
        exact ⟨.reroll a, ⟨ComparedTarget.read?_isWritten hread, hshort⟩, rfl,
          ComparedTarget.read?_append hread, rfl⟩

/-- Every modifier has one character. -/
theorem Modifier.ofChar?_inj {c c' : Char} {modifier : Modifier} (h : ofChar? c = some modifier)
    (h' : ofChar? c' = some modifier) : c = c' := by
  rw [ofChar?.eq_def] at h h'
  split at h <;> cases h <;> split at h' <;> first | rfl | cases h'

theorem WrittenCommand.exists_ofChar? (written : WrittenCommand) :
    ∃ c, written.text = c :: written.argument ∧ Modifier.ofChar? c = some written.modifier := by
  cases written with
  | explode => exact ⟨_, rfl, rfl⟩
  | keep a => exact ⟨_, rfl, rfl⟩
  | drop a => exact ⟨_, rfl, rfl⟩
  | reroll a => exact ⟨_, rfl, rfl⟩

theorem WrittenCommand.text_of_ofChar? {c : Char}
    (h : Modifier.ofChar? c = some written.modifier) : written.text = c :: written.argument := by
  obtain ⟨c', htext, hc'⟩ := written.exists_ofChar?
  rw [htext, Modifier.ofChar?_inj h hc']

/-! ## Reading a script -/

theorem isCommandChar_of_ofChar? {c : Char} {modifier : Modifier}
    (h : Modifier.ofChar? c = some modifier) : isCommandChar c = true := by
  rw [isCommandChar, h]
  rfl

theorem isCommandChar_eq_false_of_isBlank {c : Char} (h : isBlank c = true) :
    isCommandChar c = false := by
  have hblank : commandChars.any isBlank = false := by decide
  refine Bool.eq_false_iff.2 fun hc => ?_
  obtain ⟨modifier, hmodifier⟩ := Option.isSome_iff_exists.1 hc
  exact Bool.eq_false_iff.1
    (eq_false_of_any_eq_false hblank (Modifier.mem_commandChars hmodifier)) h

theorem AllBlank.notCommandChar {blanks : Text} (h : AllBlank blanks) :
    ∀ c ∈ blanks, (!isCommandChar c) = true := by
  intro c hc
  rw [isCommandChar_eq_false_of_isBlank (h c hc)]
  rfl

/-- Neither a blank nor a command begins with a digit. -/
theorem IsScript.notAhead_isDigit (h : IsScript commands text) : NotAhead isDigit text := by
  have hblanks : ∀ {blanks : Text}, AllBlank blanks → NotAhead isDigit blanks := by
    intro blanks hblanks c hc
    refine Bool.eq_false_iff.2 fun hdigit => ?_
    have hblank := hblanks c (List.mem_of_mem_head? hc)
    exact Bool.eq_false_iff.1 (isBlank_eq_false_of_isDigit hdigit) hblank
  cases h with
  | blank h => exact hblanks h
  | @cons blanks rest written commands h _ _ _ =>
    cases blanks with
    | nil =>
      obtain ⟨c, htext, hc⟩ := written.exists_ofChar?
      have hdigit : commandChars.any isDigit = false := by decide
      rw [htext]
      exact notAhead_cons (eq_false_of_any_eq_false hdigit (Modifier.mem_commandChars hc))
    | cons b blanks =>
      rw [List.append_assoc]
      exact (hblanks h).append (List.cons_ne_nil _ _) _

/-- Every command of a script has an allowed argument. -/
theorem IsScript.isAllowed_of_mem (h : IsScript commands text) :
    ∀ written ∈ commands, written.IsAllowed := by
  induction h with
  | blank => exact List.forall_mem_nil _
  | cons _ hallowed _ _ ih => exact List.forall_mem_cons.2 ⟨hallowed, ih⟩

namespace Options

theorem readAll_blank (options : Options) {blanks : Text} (h : AllBlank blanks) :
    options.readAll blanks = options := by
  have htake : blanks.takeWhile (fun c => !isCommandChar c) = blanks :=
    List.takeWhile_eq_self_iff.2 h.notCommandChar
  have hdrop : blanks.dropWhile (fun c => !isCommandChar c) = [] :=
    List.dropWhile_eq_nil_iff.2 h.notCommandChar
  have hstrip : (strip blanks).isEmpty = true := List.isEmpty_iff.2 (strip_eq_nil_iff.2 h)
  rw [readAll]
  simp only [htake, hstrip, Bool.not_true, Bool.false_eq_true, if_false]
  split
  · rfl
  · rename_i hne
    rw [hdrop] at hne
    cases hne

/-- A modifier is read with its argument, put into force and followed by the others. -/
theorem readAll_modifier (options : Options) {blanks : Text} (hblanks : AllBlank blanks) {c : Char}
    {modifier : Modifier} (hc : Modifier.ofChar? c = some modifier) (text : Text) :
    options.readAll (blanks ++ c :: text) =
      match Command.read modifier text with
      | .error e => options.fail e
      | .ok (command, rest) =>
        match options.apply command with
        | .error e => options.fail e
        | .ok applied => applied.readAll rest := by
  have hnot : NotAhead (fun c => !isCommandChar c) (c :: text) := by
    refine notAhead_cons ?_
    rw [isCommandChar_of_ofChar? hc]
    rfl
  have htake := takeWhile_append hblanks.notCommandChar hnot
  have hdrop := dropWhile_append hblanks.notCommandChar hnot
  have hstrip : (strip blanks).isEmpty = true := List.isEmpty_iff.2 (strip_eq_nil_iff.2 hblanks)
  rw [readAll]
  simp only [htake, hstrip, Bool.not_true, Bool.false_eq_true, if_false]
  split
  · rename_i hnil
    rw [hdrop] at hnil
    cases hnil
  · rename_i c' rest' hcons
    rw [hdrop] at hcons
    cases hcons
    simp only [hc]
    split
    · rename_i hread
      simp only [hread]
    · rename_i command after hread
      cases happly : options.apply command <;> simp only [hread, happly]

/-- A command is read, put into force and followed by the others. -/
theorem readAll_command (options : Options) {blanks : Text} (hblanks : AllBlank blanks)
    (h : written.IsAllowed) (ht : NotAhead isDigit rest) :
    options.readAll (blanks ++ written.text ++ rest) =
      match options.apply written.command with
      | .error e => options.fail e
      | .ok applied => applied.readAll rest := by
  obtain ⟨c, htext, hc⟩ := written.exists_ofChar?
  have hsplit : blanks ++ written.text ++ rest = blanks ++ c :: (written.argument ++ rest) := by
    rw [htext, List.append_assoc, List.cons_append]
  rw [hsplit, options.readAll_modifier hblanks hc, Command.read_argument_append h ht]

/-- Puts commands into force, one after the other, until one is refused. -/
def applyAll (options : Options) : List Command → Except OptionsError Options
  | [] => .ok options
  | command :: commands =>
    match options.apply command with
    | .error e => .error e
    | .ok applied => applied.applyAll commands

/-- A script is understood as the commands that it is made of. -/
theorem readAll_of_isScript {options applied : Options} (h : IsScript commands text)
    (happly : options.applyAll (commands.map command) = .ok applied) :
    options.readAll text = applied := by
  induction h generalizing options with
  | blank hblanks =>
    cases happly
    exact applied.readAll_blank hblanks
  | cons hblanks hallowed ht _ ih =>
    rw [List.map_cons, applyAll] at happly
    rw [options.readAll_command hblanks hallowed ht]
    split at happly
    · cases happly
    · exact ih happly

theorem isCommandChar_of_dropWhile {c : Char}
    (h : text.dropWhile (fun c => !isCommandChar c) = c :: rest) : isCommandChar c = true := by
  have hhead := List.head?_dropWhile_not (fun c => !isCommandChar c) text
  rw [h, List.head?_cons] at hhead
  simpa using hhead

/-- A text that is understood whole is a script, whose commands come into force. -/
theorem exists_isScript_of_readAll {options : Options} (h : (options.readAll text).error = none) :
    ∃ commands, IsScript commands text ∧
      options.applyAll (commands.map command) = .ok (options.readAll text) := by
  fun_induction readAll options text with
  | case1 options text skipped hskipped => cases h
  | case2 options text skipped hskipped hrest =>
    refine ⟨[], .blank ?_, rfl⟩
    have htext : text.takeWhile (fun c => !isCommandChar c) = text := by
      rw [List.takeWhile_eq_self_iff, ← List.dropWhile_eq_nil_iff]
      exact hrest
    rw [← strip_eq_nil_iff, ← htext]
    simpa using hskipped
  | case3 options text skipped hskipped c rest hrest hc =>
    have hcommand := isCommandChar_of_dropWhile hrest
    rw [isCommandChar, hc] at hcommand
    cases hcommand
  | case4 options text skipped hskipped c rest hrest modifier hc error hread => cases h
  | case5 options text skipped hskipped c rest hrest modifier hc command after hread error happly =>
    cases h
  | case6 options text skipped hskipped c rest hrest modifier hc command after hread applied happly
    ih =>
    obtain ⟨commands, hscript, hall⟩ := ih h
    obtain ⟨written, hallowed, rfl, rfl, rfl⟩ := exists_written_of_read hread
    have hblanks : AllBlank (text.takeWhile fun c => !isCommandChar c) := by
      rw [← strip_eq_nil_iff]
      simpa using hskipped
    have hsplit : (text.takeWhile fun c => !isCommandChar c) ++ written.text ++ after = text := by
      rw [written.text_of_ofChar? hc, List.append_assoc, List.cons_append, ← hrest,
        List.takeWhile_append_dropWhile]
    refine ⟨written :: commands, ?_, ?_⟩
    · rw [← hsplit]
      exact .cons hblanks hallowed hscript.notAhead_isDigit hscript
    · rw [List.map_cons, applyAll, happly]
      exact hall

/-! ## What commands come to -/

theorem side_ofLetter_high (letter : Option Char) :
    Side.ofLetter .high letter =
      if letter = some 'l' ∨ letter = some 'L' then .low else .high := by
  rw [Side.ofLetter.eq_def]
  split
  · rfl
  · rfl
  · rfl
  · rfl
  · rename_i hl hL
    exact (if_neg (not_or.2 ⟨hl, hL⟩)).symm

theorem side_ofLetter_low (letter : Option Char) :
    Side.ofLetter .low letter =
      if letter = some 'h' ∨ letter = some 'H' then .high else .low := by
  rw [Side.ofLetter.eq_def]
  split
  · rfl
  · rfl
  · rfl
  · rfl
  · rename_i hh hH _ _
    exact (if_neg (not_or.2 ⟨hh, hH⟩)).symm

variable {options applied : Options}

/-- What a written command changes when it comes into force. -/
theorem fields_enforce (options : Options) (written : WrittenCommand) :
    ((options.enforce written.command).exploding = true ↔
        written = .explode ∨ options.exploding = true) ∧
      (options.enforce written.command).keep? = written.kept?.or options.keep? ∧
      (options.enforce written.command).drop? = written.dropped?.or options.drop? ∧
      (options.enforce written.command).highest =
        (written.side?.map (· == .high)).getD options.highest ∧
      (options.enforce written.command).lowest =
        (written.side?.map (· == .low)).getD options.lowest ∧
      (options.enforce written.command).rerolls = options.rerolls ++ written.rule?.toList ∧
      (options.enforce written.command).error = options.error := by
  cases written with
  | explode => simp [command, enforce, kept?, dropped?, side?, rule?]
  | keep a => simp [command, enforce, kept?, dropped?, side?, rule?, side_ofLetter_high]
  | drop a => simp [command, enforce, kept?, dropped?, side?, rule?, side_ofLetter_low]
  | reroll a => simp [command, enforce, kept?, dropped?, side?, rule?]

theorem getLast?_filterMap_cons {α β : Type} (f : α → Option β) (a : α) (l : List α) :
    ((a :: l).filterMap f).getLast? = (l.filterMap f).getLast?.or (f a) := by
  cases h : f a with
  | none => rw [List.filterMap_cons_none h, Option.or_none]
  | some b =>
    rw [List.filterMap_cons_some h, List.getLast?_cons]
    cases (l.filterMap f).getLast? <;> rfl

/-- What commands that come into force one after the other change. -/
theorem fields_of_applyAll (h : options.applyAll (commands.map command) = .ok applied) :
    (applied.exploding = true ↔ .explode ∈ commands ∨ options.exploding = true) ∧
      applied.keep? = (commands.filterMap kept?).getLast?.or options.keep? ∧
      applied.drop? = (commands.filterMap dropped?).getLast?.or options.drop? ∧
      applied.highest =
        ((commands.filterMap side?).getLast?.map (· == .high)).getD options.highest ∧
      applied.lowest = ((commands.filterMap side?).getLast?.map (· == .low)).getD options.lowest ∧
      applied.rerolls = options.rerolls ++ commands.filterMap rule? ∧
      applied.error = options.error := by
  induction commands generalizing options with
  | nil =>
    cases h
    simp
  | cons written commands ih =>
    rw [List.map_cons, applyAll] at h
    split at h
    · cases h
    · rename_i hstep
      obtain ⟨-, rfl⟩ := apply_eq_ok_iff.1 hstep
      obtain ⟨hexploding, hkeep, hdrop, hhighest, hlowest, hrerolls, herror⟩ :=
        options.fields_enforce written
      obtain ⟨ihexploding, ihkeep, ihdrop, ihhighest, ihlowest, ihrerolls, iherror⟩ := ih h
      refine ⟨?_, ?_, ?_, ?_, ?_, ?_, iherror.trans herror⟩
      · rw [ihexploding, hexploding, List.mem_cons, or_left_comm, or_assoc, @eq_comm _ written]
      · rw [ihkeep, hkeep, getLast?_filterMap_cons, Option.or_assoc]
      · rw [ihdrop, hdrop, getLast?_filterMap_cons, Option.or_assoc]
      · rw [ihhighest, hhighest, getLast?_filterMap_cons, Option.map_or, Option.getD_or]
      · rw [ihlowest, hlowest, getLast?_filterMap_cons, Option.map_or, Option.getD_or]
      · rw [ihrerolls, hrerolls, List.append_assoc]
        cases hrule : written.rule? with
        | none => rw [List.filterMap_cons_none hrule]; rfl
        | some rule => rw [List.filterMap_cons_some hrule]; rfl

theorem kept_enforce (options : Options) (written : WrittenCommand) :
    (options.enforce written.command).kept = written.kept?.getD options.kept := by
  cases written <;> rfl

theorem dropped_enforce (options : Options) (written : WrittenCommand) :
    (options.enforce written.command).dropped = written.dropped?.getD options.dropped := by
  cases written <;> rfl

/-- Commands come into force unless they keep and drop, what is already in force included. -/
theorem exists_applyAll_iff (hallowed : ∀ written ∈ commands, written.IsAllowed)
    (hone : ¬(0 < options.kept ∧ 0 < options.dropped)) :
    (∃ applied, options.applyAll (commands.map command) = .ok applied) ↔
      ¬((0 < options.kept ∨ ∃ a, .keep a ∈ commands) ∧
        (0 < options.dropped ∨ ∃ a, .drop a ∈ commands)) := by
  induction commands generalizing options with
  | nil => simpa [applyAll] using hone
  | cons written commands ih =>
    obtain ⟨hfirst, hrest⟩ := List.forall_mem_cons.1 hallowed
    have hrun := @ih (options.enforce written.command) hrest
    rw [kept_enforce, dropped_enforce] at hrun
    rw [List.map_cons, applyAll, apply]
    cases written with
    | explode =>
      have hsame : options.conflicts (command .explode) = false := rfl
      simpa [hsame, kept?, dropped?] using hrun hone
    | keep a =>
      have hpos : 0 < numeralValue a.digits := hfirst.2.2
      by_cases hdropped : 0 < options.dropped
      · simp [command, conflicts, hdropped]
      · have hfree : options.conflicts (command (.keep a)) = false := decide_eq_false hdropped
        simpa [hfree, kept?, dropped?, hpos, hdropped] using hrun fun h => hdropped h.2
    | drop a =>
      have hpos : 0 < numeralValue a.digits := hfirst.2.2
      by_cases hkept : 0 < options.kept
      · simp [command, conflicts, hkept]
      · have hfree : options.conflicts (command (.drop a)) = false := decide_eq_false hkept
        simpa [hfree, kept?, dropped?, hpos, hkept] using hrun fun h => hkept h.1
    | reroll a =>
      have hsame : options.conflicts (command (.reroll a)) = false := rfl
      simpa [hsame, kept?, dropped?] using hrun hone

/-- Where nothing is in force, commands come into force unless they keep and drop. -/
theorem exists_applyAll_iff_isConsistent (hallowed : ∀ written ∈ commands, written.IsAllowed)
    (text : Text) :
    (∃ applied, applyAll { text := text } (commands.map command) = .ok applied) ↔
      IsConsistent commands := by
  have hkept : ¬0 < kept { text := text } := Nat.lt_irrefl 0
  have hdropped : ¬0 < dropped { text := text } := Nat.lt_irrefl 0
  rw [exists_applyAll_iff hallowed fun h => hkept h.1, or_iff_right hkept, or_iff_right hdropped,
    IsConsistent]

/-- A script without a conflict is understood whole, as the commands say. -/
theorem follow_parse (h : IsScript commands text) (hconsistent : IsConsistent commands) :
    (parse text).error = none ∧ (parse text).Follow commands := by
  obtain ⟨applied, happlied⟩ :=
    (exists_applyAll_iff_isConsistent h.isAllowed_of_mem text).2 hconsistent
  obtain rfl : parse text = applied := readAll_of_isScript h happlied
  obtain ⟨hexploding, hkeep, hdrop, hhighest, hlowest, hrerolls, herror⟩ :=
    fields_of_applyAll happlied
  -- Nothing is in force before the first command.
  rw [Option.or_none] at hkeep hdrop
  have hside : ∀ side : Side,
      ((commands.filterMap side?).getLast?.map (· == side)).getD false = true ↔
        (commands.filterMap side?).getLast? = some side := by
    intro side
    cases (commands.filterMap side?).getLast? with
    | none => exact iff_of_false Bool.false_ne_true (by simp)
    | some last => simp
  refine ⟨herror, ⟨?_, hkeep, hdrop, ?_, ?_, hrerolls⟩⟩
  · rw [hexploding, or_iff_left Bool.false_ne_true]
  · rw [hhighest, hside]
  · rw [hlowest, hside]

/-- The texts that are understood whole are the scripts that do not both keep and drop, and the
options read from a script are those that its commands ask for. -/
theorem parse_isValid_iff_exists_script (text : Text) :
    ((parse text).isValid = true ↔
        ∃ commands, IsScript commands text ∧ IsConsistent commands) ∧
      ∀ commands, IsScript commands text → IsConsistent commands →
        (parse text).Follow commands := by
  refine ⟨⟨fun h => ?_, ?_⟩, fun commands hscript hconsistent => ?_⟩
  · have herror : (parse text).error = none := Option.isNone_iff_eq_none.1 h
    obtain ⟨commands, hscript, happly⟩ := exists_isScript_of_readAll herror
    exact ⟨commands, hscript,
      (exists_applyAll_iff_isConsistent hscript.isAllowed_of_mem text).1 ⟨_, happly⟩⟩
  · rintro ⟨commands, hscript, hconsistent⟩
    rw [isValid, (follow_parse hscript hconsistent).1]
    rfl
  · exact (follow_parse hscript hconsistent).2

/-- Two selections, of which the second counts, with a rule and an explosion between blanks. -/
def spacedOptions : Text :=
  "kL٢ !\u2003r<=3k007\t".toList

/-- The commands of `spacedOptions`. -/
def spacedCommands : List WrittenCommand :=
  [.keep ⟨some 'L', ['٢']⟩, .explode, .reroll ⟨['<', '='], ['3']⟩, .keep ⟨none, ['0', '0', '7']⟩]

theorem isScript_spacedOptions : IsScript spacedCommands spacedOptions := by
  have hletter : ∀ c, some 'L' = some c → c ∈ sideLetters := by
    rintro c ⟨⟩
    decide
  have hcomparison : ∃ order equality : Option Char,
      ['<', '='] = order.toList ++ equality.toList ∧ (∀ c, order = some c → c ∈ ['<', '>']) ∧
        ∀ c, equality = some c → c ∈ ['='] := by
    refine ⟨some '<', some '=', rfl, ?_, ?_⟩
    · rintro c ⟨⟩
      decide
    · rintro c ⟨⟩
      decide
  have hfirst : IsAllowed (.keep ⟨some 'L', ['٢']⟩) :=
    ⟨⟨hletter, by decide, List.forall_mem_singleton.2 (by decide)⟩, by decide, by decide⟩
  have hreroll : IsAllowed (.reroll ⟨['<', '='], ['3']⟩) :=
    ⟨⟨hcomparison, by decide, List.forall_mem_singleton.2 (by decide)⟩, by decide⟩
  have hsecond : IsAllowed (.keep ⟨none, ['0', '0', '7']⟩) :=
    ⟨⟨nofun, by decide, List.all_eq_true.1 (by decide)⟩, by decide, by decide⟩
  have hexplode : IsAllowed .explode := trivial
  have hend : IsScript [] ['\t'] := .blank (by decide)
  have hmore := IsScript.cons (by decide : AllBlank []) hsecond (notAhead_cons (by decide)) hend
  have hrest := IsScript.cons (by decide : AllBlank ['\u2003']) hreroll
    (notAhead_cons (by decide)) hmore
  have hall := IsScript.cons (by decide : AllBlank [' ']) hexplode
    (notAhead_cons (by decide)) hrest
  exact .cons (by decide : AllBlank []) hfirst (notAhead_cons (by decide)) hall

theorem parse_spacedOptions :
    IsScript spacedCommands spacedOptions ∧ IsConsistent spacedCommands ∧
      (parse spacedOptions).isValid = true ∧ (parse spacedOptions).keep? = some 7 ∧
      (parse spacedOptions).highest = true ∧ (parse spacedOptions).exploding = true ∧
      (parse spacedOptions).rerolls = [⟨some .atMost, 3⟩] := by
  have hconsistent : IsConsistent spacedCommands := by
    rintro ⟨-, a, ha⟩
    simp [spacedCommands] at ha
  obtain ⟨hvalid, hfollow⟩ := parse_isValid_iff_exists_script spacedOptions
  have hall := hfollow spacedCommands isScript_spacedOptions hconsistent
  refine ⟨isScript_spacedOptions, hconsistent,
    hvalid.2 ⟨_, isScript_spacedOptions, hconsistent⟩, ?_, ?_, ?_, ?_⟩
  · rw [hall.keep]
    decide
  · rw [hall.highest]
    decide
  · rw [hall.exploding]
    decide
  · rw [hall.rerolls]
    decide

end Options

end DiceNotation
