import DiceNotation.Modifier.Options
import DiceNotation.Modifier.Suffix
import DiceNotation.Proofs.Lexeme

/-!
# Suffixes read back

A suffix (`IsSuffix`) is a sequence of modifiers, each with an argument that it accepts or with none
(`Modifier.Accepts`). The modifiers taken from the front of a text are a suffix
(`isSuffix_takeModifiers`), and a suffix is taken whole in front of a text that goes on neither with
a modifier nor with an argument (`IsSuffix.takeModifiers_append`): inside of it, what follows a
modifier without an argument is the next modifier, and no modifier begins like an argument.
-/

namespace DiceNotation

/-- The argument may stand behind the modifier, as written there; there may be none. -/
inductive Modifier.Accepts : Modifier → Text → Prop
  | missing (modifier : Modifier) : Accepts modifier []
  | keep {argument : SidedCount} : argument.IsWritten → Accepts .keep argument.text
  | drop {argument : SidedCount} : argument.IsWritten → Accepts .drop argument.text
  | reroll {argument : ComparedTarget} : argument.IsWritten → Accepts .reroll argument.text

/-- A sequence of modifiers with or without their arguments. -/
inductive IsSuffix : Text → Prop
  | nil : IsSuffix []
  | cons {c : Char} {modifier : Modifier} {argument rest : Text} :
    Modifier.ofChar? c = some modifier → modifier.Accepts argument → IsSuffix rest →
      IsSuffix (c :: argument ++ rest)

variable {tail : Text}

theorem Modifier.accepts_takeArgument (modifier : Modifier) (text : Text) :
    modifier.Accepts (modifier.takeArgument text).1 := by
  cases modifier with
  | explode => exact .missing _
  | keep =>
    rw [takeArgument]
    split
    · rename_i hread
      exact .keep (SidedCount.read?_isWritten hread)
    · exact .missing _
  | drop =>
    rw [takeArgument]
    split
    · rename_i hread
      exact .drop (SidedCount.read?_isWritten hread)
    · exact .missing _
  | reroll =>
    rw [takeArgument]
    split
    · rename_i hread
      exact .reroll (ComparedTarget.read?_isWritten hread)
    · exact .missing _

/-- An accepted argument is found in front of a text that begins with no other. -/
theorem Modifier.Accepts.takeArgument_append {modifier : Modifier} {argument : Text}
    (h : modifier.Accepts argument) (ht : NotAhead isArgumentChar tail) :
    modifier.takeArgument (argument ++ tail) = (argument, tail) := by
  cases h with
  | missing =>
    have hsided := SidedCount.read?_eq_none ht
    have hcompared := ComparedTarget.read?_eq_none ht
    cases modifier <;> simp only [takeArgument, List.nil_append, hsided, hcompared]
  | keep h => simp only [takeArgument, h.read?_append ht.isDigit_of_argument]
  | drop h => simp only [takeArgument, h.read?_append ht.isDigit_of_argument]
  | reroll h => simp only [takeArgument, h.read?_append ht.isDigit_of_argument]

theorem Modifier.mem_commandChars {c : Char} {modifier : Modifier}
    (h : Modifier.ofChar? c = some modifier) : c ∈ commandChars := by
  rw [Modifier.ofChar?.eq_def] at h
  split at h
  · decide
  · decide
  · decide
  · decide
  · cases h

theorem isSuffix_takeModifiers (text : Text) : IsSuffix (takeModifiers text).1 := by
  fun_induction takeModifiers text with
  | case1 => exact .nil
  | case2 => exact .nil
  | case3 c rest modifier hc argument more ih =>
    exact .cons hc (modifier.accepts_takeArgument rest) ih

/-- A suffix begins like no argument, unless it is empty. -/
theorem IsSuffix.notAhead_append {suffix : Text} (h : IsSuffix suffix)
    (ht : NotAhead isArgumentChar tail) : NotAhead isArgumentChar (suffix ++ tail) := by
  cases h with
  | nil => exact ht
  | cons hc _ _ =>
    have hargument : commandChars.any isArgumentChar = false := by decide
    exact notAhead_cons (eq_false_of_any_eq_false hargument (Modifier.mem_commandChars hc))

theorem takeModifiers_of_notAhead (h : NotAhead isCommandChar tail) :
    takeModifiers tail = ([], tail) := by
  cases tail with
  | nil => rw [takeModifiers]
  | cons c rest =>
    have hc : Modifier.ofChar? c = none :=
      Option.isNone_iff_eq_none.1 (Option.isSome_eq_false_iff.1 (h c rfl))
    rw [takeModifiers, hc]

/-- A suffix is taken whole in front of a text that does not prolong it. -/
theorem IsSuffix.takeModifiers_append {suffix : Text} (h : IsSuffix suffix)
    (harg : NotAhead isArgumentChar tail) (hcmd : NotAhead isCommandChar tail) :
    takeModifiers (suffix ++ tail) = (suffix, tail) := by
  induction h with
  | nil => exact takeModifiers_of_notAhead hcmd
  | @cons c modifier argument rest hc haccepts hrest ih =>
    -- Behind the argument the suffix goes on with a modifier or ends, and neither prolongs it.
    have hargument := haccepts.takeArgument_append (hrest.notAhead_append harg)
    rw [List.append_assoc, List.cons_append, takeModifiers, hc]
    simp only [hargument, ih]

theorem Modifier.Accepts.isBlank_eq_false {modifier : Modifier} {argument : Text}
    (h : modifier.Accepts argument) : ∀ c ∈ argument, isBlank c = false := by
  cases h with
  | missing => exact nofun
  | keep h => exact h.isBlank_eq_false
  | drop h => exact h.isBlank_eq_false
  | reroll h => exact h.isBlank_eq_false

theorem IsSuffix.isBlank_eq_false {suffix : Text} (h : IsSuffix suffix) :
    ∀ c ∈ suffix, isBlank c = false := by
  induction h with
  | nil => exact nofun
  | cons hc haccepts _ ih =>
    intro c hmem
    rcases List.mem_append.1 hmem with hcommand | hrest
    · rcases List.mem_cons.1 hcommand with rfl | hargument
      · have hblank : commandChars.any isBlank = false := by decide
        exact eq_false_of_any_eq_false hblank (Modifier.mem_commandChars hc)
      · exact haccepts.isBlank_eq_false c hargument
    · exact ih c hrest

/-! ## Options -/

theorem Options.text_of_apply {options applied : Options} {command : Command}
    (h : options.apply command = .ok applied) : applied.text = options.text := by
  obtain ⟨-, rfl⟩ := apply_eq_ok_iff.1 h
  cases command <;> rfl

/-- Options keep the text that they are read from. -/
theorem Options.text_readAll (options : Options) (text : Text) :
    (options.readAll text).text = options.text := by
  fun_induction Options.readAll options text with
  | case1 options text skipped hskipped => rfl
  | case2 options text skipped hskipped hrest => rfl
  | case3 options text skipped hskipped c rest hrest hc => rfl
  | case4 options text skipped hskipped c rest hrest modifier hc error hread => rfl
  | case5 options text skipped hskipped c rest hrest modifier hc command after hread error happly =>
    rfl
  | case6 options text skipped _ c rest _ modifier _ command after _ applied happly ih =>
    rw [ih, text_of_apply happly]

theorem Options.text_parse (text : Text) : (Options.parse text).text = text :=
  Options.text_readAll _ text

end DiceNotation
