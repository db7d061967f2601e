import DiceNotation.Proofs.Cursor
import DiceNotation.Proofs.Modifier.Grammar

/-!
# Lookahead

Two readers know the modifiers of a group. The lookahead finds where a suffix ends and passes over a
modifier without its argument; the options are then read from what it took, and there such a
modifier is a fault. Both agree on what belongs to a suffix
(`takeModifiers_agrees_with_parse`):

* What the lookahead takes holds nothing that is unknown to the options. Alone it is taken whole
    again, and no modifier follows it.
* Options that are understood whole and hold no blank are taken whole, in front of every text that
    begins neither with a modifier nor with a digit.

The two readers go through a suffix in step: the text that is left when a command was read is the
one that the lookahead leaves behind its argument (`Command.takeArgument_of_read`).
-/

namespace DiceNotation

variable {text rest : Text} {modifier : Modifier}

/-! ## One command -/

theorem exists_read?_of_readSelection {usual : Side} {select : Side → Nat → Command}
    {command : Command} (h : readSelection modifier usual select text = .ok (command, rest)) :
    ∃ argument, SidedCount.read? text = some (argument, rest) := by
  rw [readSelection] at h
  split at h
  · cases h
  · rename_i argument after hargument
    split at h <;> cases h
    exact ⟨argument, hargument⟩

/-- A command that is read has the argument that the lookahead takes. -/
theorem Command.takeArgument_of_read {command : Command}
    (h : Command.read modifier text = .ok (command, rest)) :
    (modifier.takeArgument text).2 = rest := by
  cases modifier with
  | explode =>
    cases h
    rfl
  | keep =>
    obtain ⟨argument, hargument⟩ := exists_read?_of_readSelection h
    simp only [Modifier.takeArgument, hargument]
  | drop =>
    obtain ⟨argument, hargument⟩ := exists_read?_of_readSelection h
    simp only [Modifier.takeArgument, hargument]
  | reroll =>
    rw [Command.read] at h
    split at h
    · cases h
    · rename_i argument after hargument
      split at h <;> cases h
      simp only [Modifier.takeArgument, hargument]

/-- The argument of a written command is taken in front of a text that does not prolong its
    digits. -/
theorem WrittenCommand.takeArgument_append {written : WrittenCommand} (h : written.IsAllowed)
    (ht : NotAhead isDigit rest) :
    written.modifier.takeArgument (written.argument ++ rest) = (written.argument, rest) := by
  cases written with
  | explode => rfl
  | keep a => simp only [modifier, argument, Modifier.takeArgument, h.1.read?_append ht]
  | drop a => simp only [modifier, argument, Modifier.takeArgument, h.1.read?_append ht]
  | reroll a => simp only [modifier, argument, Modifier.takeArgument, h.1.read?_append ht]

/-! ## Faults -/

/-- The fault is one of a modifier and not of text that belongs to none. -/
def OptionsError.IsOfModifier : OptionsError → Prop
  | .unrecognized _ => False
  | .unusable _ | .argumentTooLarge | .keepAndDrop => True

/-- What the wording of text that belongs to no modifier begins with. -/
def unrecognizedWording : Text :=
  "Unrecognized roll options".toList

/-- The wording tells the one fault from all others. -/
theorem OptionsError.isOfModifier_iff {error : OptionsError} :
    error.IsOfModifier ↔ ¬unrecognizedWording <+: error.message.toList := by
  cases error with
  | unrecognized text =>
    have hfront : "Unrecognized roll options: ".toList = unrecognizedWording ++ [':', ' '] := by
      decide
    have hwording : unrecognizedWording <+:
        ("Unrecognized roll options: " ++ String.ofList text).toList := by
      rw [String.toList_append, hfront, List.append_assoc]
      exact List.prefix_append unrecognizedWording _
    exact iff_of_false id (not_not_intro hwording)
  | unusable modifier => exact iff_of_true trivial (by cases modifier <;> decide)
  | argumentTooLarge => exact iff_of_true trivial (by decide)
  | keepAndDrop => exact iff_of_true trivial (by decide)

theorem isOfModifier_of_readSelection {usual : Side} {select : Side → Nat → Command}
    {error : OptionsError} (h : readSelection modifier usual select text = .error error) :
    error.IsOfModifier := by
  rw [readSelection] at h
  split at h
  · cases h
    exact trivial
  · split at h <;> cases h <;> exact trivial

theorem Command.isOfModifier_of_read {error : OptionsError}
    (h : Command.read modifier text = .error error) : error.IsOfModifier := by
  cases modifier with
  | explode => cases h
  | keep => exact isOfModifier_of_readSelection h
  | drop => exact isOfModifier_of_readSelection h
  | reroll =>
    rw [Command.read] at h
    split at h
    · cases h
      exact trivial
    · split at h <;> cases h
      exact trivial

namespace Options

variable {options applied : Options} {command : Command}

theorem isOfModifier_of_apply {error : OptionsError} (h : options.apply command = .error error) :
    error.IsOfModifier := by
  rw [apply] at h
  split at h <;> cases h
  exact trivial

theorem error_of_apply (h : options.apply command = .ok applied) :
    applied.error = options.error := by
  obtain ⟨-, rfl⟩ := apply_eq_ok_iff.1 h
  cases command <;> rfl

/-- A suffix holds no text that belongs to no modifier. -/
theorem isOfModifier_of_isSuffix (h : IsSuffix text)
    (hbefore : ∀ error, options.error = some error → error.IsOfModifier) :
    ∀ error, (options.readAll text).error = some error → error.IsOfModifier := by
  induction h generalizing options with
  | nil =>
    rw [readAll_blank options (List.forall_mem_nil _)]
    exact hbefore
  | @cons c modifier argument rest hc haccepts hrest ih =>
    -- Behind its argument the modifier is followed by another one or by nothing.
    have hahead : NotAhead isArgumentChar (rest ++ []) := hrest.notAhead_append notAhead_nil
    have hargument := haccepts.takeArgument_append hahead
    rw [List.append_nil] at hargument
    have hread := readAll_modifier options (List.forall_mem_nil _) hc (argument ++ rest)
    rw [List.nil_append] at hread
    rw [List.cons_append, hread]
    split
    · rename_i hfault
      rintro _ ⟨⟩
      exact Command.isOfModifier_of_read hfault
    · rename_i command after hcommand
      have hafter := Command.takeArgument_of_read hcommand
      rw [hargument] at hafter
      subst hafter
      split
      · rename_i hfault
        rintro _ ⟨⟩
        exact isOfModifier_of_apply hfault
      · rename_i applied happly
        refine ih ?_
        rwa [error_of_apply happly]

end Options

/-! ## Suffixes -/

/-- Behind a suffix no modifier follows. -/
theorem notAhead_takeModifiers (text : Text) : NotAhead isCommandChar (takeModifiers text).2 := by
  fun_induction takeModifiers text with
  | case1 => exact notAhead_nil
  | case2 c rest hc =>
    refine notAhead_cons ?_
    rw [isCommandChar, hc]
    rfl
  | case3 c rest modifier hc argument more ih => exact ih

/-- Commands that hold no blank and are written one behind the other are taken whole. -/
theorem IsScript.takeModifiers_append {commands : List WrittenCommand} (h : IsScript commands text)
    (hsolid : ∀ c ∈ text, isBlank c = false) (hcommand : NotAhead isCommandChar rest)
    (hdigit : NotAhead isDigit rest) : takeModifiers (text ++ rest) = (text, rest) := by
  -- What is blank in the script is empty.
  have hnil : ∀ {blanks : Text}, AllBlank blanks → (∀ c ∈ blanks, isBlank c = false) →
      blanks = [] := by
    intro blanks hblanks hnone
    refine List.eq_nil_iff_forall_not_mem.2 fun c hc => ?_
    exact Bool.eq_false_iff.1 (hnone c hc) (hblanks c hc)
  induction h with
  | blank hblanks =>
    rw [hnil hblanks hsolid]
    exact takeModifiers_of_notAhead hcommand
  | @cons blanks after written commands hblanks hallowed ht hscript ih =>
    rw [List.forall_mem_append, List.forall_mem_append] at hsolid
    obtain ⟨⟨hfront, -⟩, hsolid⟩ := hsolid
    obtain rfl := hnil hblanks hfront
    obtain ⟨c, htext, hc⟩ := written.exists_ofChar?
    have hahead : NotAhead isDigit (after ++ rest) := by
      cases after with
      | nil => exact hdigit
      | cons c after => exact ht.append (List.cons_ne_nil _ _) rest
    have hargument := WrittenCommand.takeArgument_append hallowed hahead
    rw [htext, List.nil_append, List.append_assoc, List.cons_append, takeModifiers, hc]
    simp only [hargument, ih hsolid]

theorem Cursor.takeModifiers_of_remainder {cursor : Cursor} {suffix : Text}
    (h : DiceNotation.takeModifiers cursor.remainder = (suffix, rest)) :
    cursor.takeModifiers = (suffix, cursor.advance suffix.length) := by
  rw [Cursor.takeModifiers, h]

theorem Cursor.remainder_takeModifiers (cursor : Cursor) :
    cursor.takeModifiers.2.remainder = (DiceNotation.takeModifiers cursor.remainder).2 := by
  obtain ⟨suffix, rest, htake⟩ : ∃ suffix rest,
      DiceNotation.takeModifiers cursor.remainder = (suffix, rest) := ⟨_, _, rfl⟩
  have happend := takeModifiers_append cursor.remainder
  rw [htake] at happend
  rw [Cursor.takeModifiers_of_remainder htake, htake]
  rw [Cursor.remainder_advance, ← happend, List.drop_left]

/-- The lookahead takes from every position a suffix in which the options find no text that belongs
    to no modifier, which is taken whole again if it stands alone, and which no modifier follows. It
    takes options without a blank that are understood whole just as they are, in front of whatever
    begins neither with a modifier nor with a digit. -/
theorem takeModifiers_agrees_with_parse :
    (∀ (cursor after : Cursor) (suffix : Text), cursor.takeModifiers = (suffix, after) →
      (∀ error, (Options.parse suffix).error = some error →
        ¬unrecognizedWording <+: error.message.toList) ∧
      Cursor.takeModifiers ⟨suffix, 0⟩ = (suffix, ⟨suffix, suffix.length⟩) ∧
      NotAhead isCommandChar after.remainder) ∧
    ∀ text rest : Text, (∀ c ∈ text, isBlank c = false) → (Options.parse text).isValid = true →
      NotAhead isCommandChar rest → NotAhead isDigit rest →
      ∀ cursor : Cursor, cursor.remainder = text ++ rest →
        cursor.takeModifiers = (text, cursor.advance text.length) := by
  constructor
  · rintro cursor _ _ ⟨⟩
    have hsuffix := isSuffix_takeModifiers cursor.remainder
    refine ⟨fun error herror => ?_, ?_, ?_⟩
    · have hfault := Options.isOfModifier_of_isSuffix hsuffix (by rintro _ ⟨⟩) error herror
      exact OptionsError.isOfModifier_iff.1 hfault
    · have hwhole := hsuffix.takeModifiers_append notAhead_nil notAhead_nil
      rw [List.append_nil] at hwhole
      rw [@Cursor.takeModifiers_of_remainder _ ⟨_, 0⟩ _ hwhole]
      simp only [Cursor.advance, Nat.zero_add]
    · have hremainder := cursor.remainder_takeModifiers
      rw [Cursor.takeModifiers] at hremainder
      rw [hremainder]
      exact notAhead_takeModifiers cursor.remainder
  · intro text rest hsolid hvalid hcommand hdigit cursor hcursor
    have herror : (Options.parse text).error = none := Option.isNone_iff_eq_none.1 hvalid
    obtain ⟨commands, hscript, -⟩ := Options.exists_isScript_of_readAll herror
    have htake := hscript.takeModifiers_append hsolid hcommand hdigit
    rw [← hcursor] at htake
    exact Cursor.takeModifiers_of_remainder htake

/-- Keeping without an argument is passed over by the lookahead and named as unusable when the
    options are read. In front of a letter that is no modifier the options end. -/
theorem takeModifiers_missingArgument :
    Cursor.takeModifiers ⟨"4d6kl2r<=1!k+1".toList, 3⟩ =
        ("kl2r<=1!k".toList, ⟨"4d6kl2r<=1!k+1".toList, 12⟩) ∧
      (Options.parse "kl2r<=1!k".toList).error = some (.unusable .keep) ∧
      ¬unrecognizedWording <+: (OptionsError.unusable .keep).message.toList ∧
      Cursor.takeModifiers ⟨"kl2r<=1!k".toList, 0⟩ =
        ("kl2r<=1!k".toList, ⟨"kl2r<=1!k".toList, 9⟩) ∧
      NotAhead isCommandChar "+1".toList ∧
      (Options.parse "kh2r<3!".toList).isValid = true ∧
      Cursor.takeModifiers ⟨"kh2r<3!h + 4".toList, 0⟩ =
        ("kh2r<3!".toList, ⟨"kh2r<3!h + 4".toList, 7⟩) := by
  have htake : Cursor.takeModifiers ⟨"4d6kl2r<=1!k+1".toList, 3⟩ =
      ("kl2r<=1!k".toList, ⟨"4d6kl2r<=1!k+1".toList, 12⟩) := by decide +kernel
  have hmissing : (Options.parse "kl2r<=1!k".toList).error = some (.unusable .keep) := by
    decide +kernel
  have hvalid : (Options.parse "kh2r<3!".toList).isValid = true := by decide +kernel
  have hsolid : "kh2r<3!".toList.any isBlank = false := by decide +kernel
  have hremainder : Cursor.remainder ⟨"kh2r<3!h + 4".toList, 0⟩ =
      "kh2r<3!".toList ++ "h + 4".toList := by decide +kernel
  obtain ⟨hagrees, hwhole⟩ := takeModifiers_agrees_with_parse
  obtain ⟨hmessage, halone, hahead⟩ := hagrees _ _ _ htake
  exact ⟨htake, hmissing, hmessage _ hmissing, halone, hahead, hvalid,
    hwhole "kh2r<3!".toList "h + 4".toList (fun _ => eq_false_of_any_eq_false hsolid) hvalid
      (notAhead_cons rfl) (notAhead_cons (by decide)) _ hremainder⟩

end DiceNotation
