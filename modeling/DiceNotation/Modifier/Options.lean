import DiceNotation.Modifier.Command

/-!
# The options of a dice group

The options of a group are read from left to right out of the text behind its faces
(`Options.parse`). Blanks between commands are ignored, and the first fault ends the reading: what
was understood before it stays in force, and the fault is kept (`Options.error`).

To keep and to drop dice are two settings with one pair of flags for the side. That they are never
both made is up to the reader, who refuses a command that conflicts with those before it
(`Options.apply`). What they come to when dice are rolled is one `Selection` (`Options.selection`),
or none: a setting of zero dice is as good as none.
-/

namespace DiceNotation

/-- What the modifiers of a group ask for. -/
structure Options where
  /-- The text that the options were read from. -/
  text : Text
  /-- Whether a die that shows its highest face is followed by another. -/
  exploding : Bool := false
  /-- How many dice are kept, if some are. -/
  keep? : Option Nat := none
  /-- How many dice are dropped, if some are. -/
  drop? : Option Nat := none
  /-- Whether dice are kept or dropped at the high end. -/
  highest : Bool := false
  /-- Whether dice are kept or dropped at the low end. -/
  lowest : Bool := false
  /-- The rules by which dice are rolled again, in the order written. -/
  rerolls : List RerollRule := []
  /-- The fault that ended the reading, if any. -/
  error : Option OptionsError := none
  deriving DecidableEq

/-- Which dice of a pool count: those kept at one end, or all but those dropped at one end. No
selection keeps or drops nothing. -/
inductive Selection
  | keep (side : Side) (count : Nat) (pos : 0 < count)
  | drop (side : Side) (count : Nat) (pos : 0 < count)
  deriving DecidableEq

namespace Options

/-- Whether the whole text was understood. -/
def isValid (options : Options) : Bool :=
  options.error.isNone

/-- How many dice are kept, where zero stands for no such setting. -/
def kept (options : Options) : Nat :=
  options.keep?.getD 0

/-- How many dice are dropped, where zero stands for no such setting. -/
def dropped (options : Options) : Nat :=
  options.drop?.getD 0

/-- Which dice count, if not all. To drop goes before to keep. Dice are dropped at the low end
unless the high one is set, and kept at the high end unless the low one is set. -/
def selection (options : Options) : Option Selection :=
  if h : 0 < options.dropped then
    some (.drop (if options.highest then .high else .low) options.dropped h)
  else if h : 0 < options.kept then
    some (.keep (if options.lowest then .low else .high) options.kept h)
  else none

/-- Whether some rule asks to roll a die again that shows `value`. -/
def needsReroll (options : Options) (value : Int) : Bool :=
  options.rerolls.any (·.holds value)

/-- The options with a command in force. -/
def enforce (options : Options) : Command → Options
  | .explode => { options with exploding := true }
  | .keep side count =>
    { options with keep? := some count, highest := side == .high, lowest := side == .low }
  | .drop side count =>
    { options with drop? := some count, highest := side == .high, lowest := side == .low }
  | .reroll rule => { options with rerolls := options.rerolls ++ [rule] }

/-- Whether a command does not go with the options in force: to keep dice if some are dropped, or to
drop them if some are kept. -/
def conflicts (options : Options) : Command → Bool
  | .keep .. => decide (0 < options.dropped)
  | .drop .. => decide (0 < options.kept)
  | .explode | .reroll _ => false

/-- Puts a command into force, unless it conflicts with the options in force. -/
def apply (options : Options) (command : Command) : Except OptionsError Options :=
  if options.conflicts command then .error .keepAndDrop else .ok (options.enforce command)

theorem apply_eq_ok_iff {options applied : Options} {command : Command} :
    options.apply command = .ok applied ↔
      options.conflicts command = false ∧ options.enforce command = applied := by
  rw [apply]
  split
  · rename_i hconflict
    simp [hconflict]
  · rename_i hconflict
    simp [hconflict]

/-- Ends the reading with a fault. -/
def fail (options : Options) (error : OptionsError) : Options :=
  { options with error := some error }

/-- Reads the commands in `text` on top of the options already in force. -/
def readAll (options : Options) (text : Text) : Options :=
  let skipped := strip (text.takeWhile fun c => !isCommandChar c)
  if !skipped.isEmpty then options.fail (.unrecognized skipped)
  else
    match _h : text.dropWhile fun c => !isCommandChar c with
    | [] => options
    | c :: rest =>
      match Modifier.ofChar? c with
      | none => options
      | some modifier =>
        match _hr : Command.read modifier rest with
        | .error e => options.fail e
        | .ok (command, after) =>
          match options.apply command with
          | .error e => options.fail e
          | .ok options => options.readAll after
termination_by text.length
decreasing_by
  have hle := Command.length_read_le _hr
  have hdrop := (List.dropWhile_sublist (fun c => !isCommandChar c) (l := text)).length_le
  rw [_h, List.length_cons] at hdrop
  omega

/-- Reads the options of a group from the text behind its faces. -/
def parse (text : Text) : Options :=
  readAll { text := text } text

end Options

end DiceNotation
