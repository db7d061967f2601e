import DiceNotation.Lexeme
import DiceNotation.Modifier.Reroll

/-!
# Modifier commands

A modifier is announced by one character: `!` explodes, `k` keeps, `d` drops and `r` rolls again.
All but the first need an argument. `Command.read` turns a modifier and the text after its character
into a command, or names the fault; it never looks beyond the argument, and what it leaves is no
longer than what it was given (`Command.length_read_le`).
-/

namespace DiceNotation

/-- The kinds of modifier. -/
inductive Modifier
  | explode
  | keep
  | drop
  | reroll
  deriving DecidableEq

/-- The modifier that a character announces. -/
def Modifier.ofChar? : Char → Option Modifier
  | '!' => some .explode
  | 'k' => some .keep
  | 'd' => some .drop
  | 'r' => some .reroll
  | _ => none

/-- The characters that announce a modifier, in the order in which they are listed to users. -/
def commandChars : Text := ['!', 'k', 'd', 'r']

/-- Whether a character announces a modifier. -/
def isCommandChar (c : Char) : Bool :=
  (Modifier.ofChar? c).isSome

/-- Whether `piece` occurs in one piece somewhere in `text`. -/
def occursIn (piece : Text) : Text → Bool
  | [] => piece.isEmpty
  | c :: rest => piece.isPrefixOf (c :: rest) || occursIn piece rest

/-- Whether a word is a stretch of the list of command characters. -/
def isCommandWord (word : Text) : Bool :=
  !word.isEmpty && occursIn word commandChars

/-- The two ends of a pool of dice in order of value. -/
inductive Side
  | high
  | low
  deriving DecidableEq

/-- The side that a letter names, in either case; any other letter gives the usual side. -/
def Side.ofLetter (usual : Side) : Option Char → Side
  | some 'h' | some 'H' => .high
  | some 'l' | some 'L' => .low
  | _ => usual

/-- Why the text of the modifiers of a group is refused. -/
inductive OptionsError
  /-- Text that belongs to no modifier. -/
  | unrecognized (text : Text)
  /-- A modifier without a usable argument. -/
  | unusable (modifier : Modifier)
  /-- An argument with too many significant digits. -/
  | argumentTooLarge
  /-- A modifier that keeps and one that drops in one group. -/
  | keepAndDrop
  deriving DecidableEq

/-- The most significant digits in the argument of a modifier. -/
def argumentDigits : Nat := 9

/-- How a modifier is to be used. -/
def Modifier.usage : Modifier → String
  | .explode => ""
  | .keep => "You must specify valid options for the (k)eep modifier, e.g. k3, kl2, kh2"
  | .drop => "You must specify valid options for the (d)rop modifier, e.g. d3, dl2, dh3"
  | .reroll => "You must specify valid options for the (r)eroll modifier, e.g. r1, r<5, r>=10"

/-- The wording of the fault. -/
def OptionsError.message : OptionsError → String
  | .unrecognized text => "Unrecognized roll options: " ++ String.ofList text
  | .unusable modifier => modifier.usage
  | .argumentTooLarge => "Roll option argument is too large (max 9 digits)"
  | .keepAndDrop => "Cannot enable both \"keep\" and \"drop\" options simultaneously."

/-- A modifier with its argument. -/
inductive Command
  | explode
  | keep (side : Side) (count : Nat)
  | drop (side : Side) (count : Nat)
  | reroll (rule : RerollRule)
  deriving DecidableEq

/-- Reads a side and a count of at least one for a modifier that selects dice, which makes the
command of them. Without a letter the side is `usual`. -/
def readSelection (modifier : Modifier) (usual : Side) (select : Side → Nat → Command)
    (text : Text) : Except OptionsError (Command × Text) :=
  match SidedCount.read? text with
  | none => .error (.unusable modifier)
  | some (argument, rest) =>
    match boundedValue? argumentDigits argument.digits with
    | none => .error .argumentTooLarge
    | some 0 => .error (.unusable modifier)
    | some (n + 1) => .ok (select (Side.ofLetter usual argument.letter) (n + 1), rest)

/-- Reads the argument of a modifier from the text after its character. Dice are kept at the high
end and dropped at the low end unless a letter says otherwise. -/
def Command.read (modifier : Modifier) (text : Text) : Except OptionsError (Command × Text) :=
  match modifier with
  | .explode => .ok (.explode, text)
  | .keep => readSelection .keep .high .keep text
  | .drop => readSelection .drop .low .drop text
  | .reroll =>
    match ComparedTarget.read? text with
    | none => .error (.unusable .reroll)
    | some (argument, rest) =>
      match boundedValue? argumentDigits argument.digits with
      | none => .error .argumentTooLarge
      | some n => .ok (.reroll (RerollRule.ofText argument.comparison n), rest)

theorem length_readSelection_le {modifier : Modifier} {usual : Side}
    {select : Side → Nat → Command} {text rest : Text} {command : Command}
    (h : readSelection modifier usual select text = .ok (command, rest)) :
    rest.length ≤ text.length := by
  unfold readSelection at h
  split at h
  · cases h
  · rename_i argument after hread
    have happ := congrArg List.length (SidedCount.read?_append hread)
    simp only [List.length_append] at happ
    split at h
    · cases h
    · cases h
    · simp only [Except.ok.injEq, Prod.mk.injEq] at h
      rw [← h.2]
      omega

/-- Reading a command gives back no more text than it was given. -/
theorem Command.length_read_le {modifier : Modifier} {text rest : Text} {command : Command}
    (h : Command.read modifier text = .ok (command, rest)) : rest.length ≤ text.length := by
  unfold Command.read at h
  split at h
  · simp only [Except.ok.injEq, Prod.mk.injEq] at h
    obtain ⟨-, rfl⟩ := h
    exact Nat.le_refl _
  · exact length_readSelection_le h
  · exact length_readSelection_le h
  · split at h
    · cases h
    · rename_i argument after hread
      have happ := congrArg List.length (ComparedTarget.read?_append hread)
      simp only [List.length_append] at happ
      split at h
      · cases h
      · simp only [Except.ok.injEq, Prod.mk.injEq] at h
        rw [← h.2]
        omega

end DiceNotation
