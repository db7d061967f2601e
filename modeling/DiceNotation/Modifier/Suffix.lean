import DiceNotation.Modifier.Command

/-!
# The suffix of a group

Behind its faces a dice group may carry modifiers. `takeModifiers` finds where they end without
judging them: it takes every command character with the argument that fits it, if one does, so that
a faulty suffix is taken whole and refused later, by the options read from it. What it takes and
what it leaves make up the text (`takeModifiers_append`).
-/

namespace DiceNotation

/-- The longest argument that the modifier accepts at the front of a text, with the text after it;
the argument is empty if none fits. -/
def Modifier.takeArgument (modifier : Modifier) (text : Text) : Text × Text :=
  match modifier with
  | .explode => ([], text)
  | .keep | .drop =>
    match SidedCount.read? text with
    | some (argument, rest) => (argument.text, rest)
    | none => ([], text)
  | .reroll =>
    match ComparedTarget.read? text with
    | some (argument, rest) => (argument.text, rest)
    | none => ([], text)

/-- An argument and what follows it make up the text that was read. -/
theorem Modifier.takeArgument_append (modifier : Modifier) (text : Text) :
    (modifier.takeArgument text).1 ++ (modifier.takeArgument text).2 = text := by
  have sided : ∀ piece : Text × Text,
      (match SidedCount.read? text with
        | some (argument, rest) => (argument.text, rest)
        | none => ([], text)) = piece → piece.1 ++ piece.2 = text := by
    rintro piece rfl
    split
    · rename_i argument rest h
      exact SidedCount.read?_append h
    · rfl
  cases modifier with
  | explode => rfl
  | keep => exact sided _ rfl
  | drop => exact sided _ rfl
  | reroll =>
    simp only [takeArgument]
    split
    · rename_i argument rest h
      exact ComparedTarget.read?_append h
    · rfl

/-- Takes the modifiers at the front of a text, each with the argument that fits it, and returns
them with the text after them. Blanks end the suffix. -/
def takeModifiers (text : Text) : Text × Text :=
  match text with
  | [] => ([], [])
  | c :: rest =>
    match Modifier.ofChar? c with
    | none => ([], c :: rest)
    | some modifier =>
      let argument := modifier.takeArgument rest
      let more := takeModifiers argument.2
      (c :: argument.1 ++ more.1, more.2)
termination_by text.length
decreasing_by
  have := congrArg List.length (modifier.takeArgument_append rest)
  simp only [List.length_append] at this
  simp only [List.length_cons]
  omega

/-- The modifiers and what follows them make up the text that was read. -/
theorem takeModifiers_append (text : Text) :
    (takeModifiers text).1 ++ (takeModifiers text).2 = text := by
  fun_induction takeModifiers text with
  | case1 => rfl
  | case2 => rfl
  | case3 c rest modifier _ argument more ih =>
    have hargument : argument.1 ++ argument.2 = rest := modifier.takeArgument_append rest
    simp only [List.cons_append, List.append_assoc, more, ih, hargument]

end DiceNotation
