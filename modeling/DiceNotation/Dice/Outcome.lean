import DiceNotation.Modifier.Options
import DiceNotation.Dice.Source

/-!
# Faces and outcomes

A die is described by its faces: a number of them, or the word for a special die, of which there is
one, the fudge die. Rolling it makes one draw (`Faces.roll`) and yields an outcome, which carries
marks for its fate in the pool.
-/

namespace DiceNotation

/-- What is on the faces of a die. -/
inductive Faces
  /-- The numbers from one up. -/
  | number (n : Int)
  /-- Whatever a word stands for. -/
  | word (text : Text)
  deriving DecidableEq

/-- The faces as they are written in notation. -/
def Faces.text : Faces → Text
  | .number n => integerText n
  | .word text => text

/-- Whether the faces are those of a special die. -/
def Faces.isSpecial : Faces → Bool
  | .number _ => false
  | .word text => text == fudgeFaces

/-- What became of one die. -/
structure Outcome where
  /-- The value shown. -/
  value : Int
  /-- The die was rolled again, so its value does not count. -/
  rerolled : Bool := false
  /-- The die was left out by the selection of the group. -/
  dropped : Bool := false
  /-- The die was followed by another for showing its highest face. -/
  exploded : Bool := false
  deriving DecidableEq

/-- The mark of an exploded die. -/
def explodedMark : Char := '!'

/-- The mark of a dropped die. -/
def droppedMark : Char := '✖'

/-- The mark of a die that was rolled again. -/
def rerolledMark : Char := '🔃'

/-- The value with the marks of the outcome behind it. -/
def Outcome.text (outcome : Outcome) : Text :=
  integerText outcome.value ++ (if outcome.exploded then [explodedMark] else []) ++
    (if outcome.dropped then [droppedMark] else []) ++
    (if outcome.rerolled then [rerolledMark] else [])

/-- Why dice could not be rolled. -/
inductive RollError
  /-- A draw was refused. -/
  | draw (error : DrawError)
  /-- There is no die with such faces. -/
  | unknownFaces (text : Text)
  deriving DecidableEq

/-- The interval from which a number of faces is drawn. -/
def dieInterval (n : Int) : Interval := ⟨1, n⟩

/-- The interval from which the fudge die is drawn. -/
def fudgeInterval : Interval := ⟨1, 3⟩

/-- The outcome of a numbered die that shows `value`. It explodes on its highest face if the options
say so. -/
def numberedOutcome (n : Int) (options : Options) (value : Int) : Outcome where
  value := value
  rerolled := options.needsReroll value
  exploded := options.exploding && value == n

/-- The outcome of the fudge die for a draw of one, two or three. It never explodes. -/
def fudgeOutcome (options : Options) (drawn : Int) : Outcome where
  value := drawn - 2
  rerolled := options.needsReroll (drawn - 2)

/-- Draws once and turns the integer drawn into an outcome. -/
def drawOutcome (interval : Interval) (outcome : Int → Outcome) (source : Source) :
    Except RollError Outcome × Source :=
  match source.draw interval with
  | (.ok value, after) => (.ok (outcome value), after)
  | (.error e, after) => (.error (.draw e), after)

/-- Rolls one die and marks the outcome by the options of its group. -/
def Faces.roll (faces : Faces) (options : Options) (source : Source) :
    Except RollError Outcome × Source :=
  match faces with
  | .number n => drawOutcome (dieInterval n) (numberedOutcome n options) source
  | .word text =>
    if text == fudgeFaces then drawOutcome fudgeInterval (fudgeOutcome options) source
    else (.error (.unknownFaces text), source)

theorem remaining_lt_of_drawOutcome {interval : Interval} {outcome : Int → Outcome}
    {source after : Source} {result : Outcome}
    (h : drawOutcome interval outcome source = (.ok result, after)) :
    after.remaining < source.remaining := by
  unfold drawOutcome at h
  split at h
  · rename_i value later hdraw
    cases h
    exact Source.remaining_lt_of_draw hdraw
  · cases h

/-- A die that was rolled has used up a draw. -/
theorem Faces.remaining_lt_of_roll {faces : Faces} {options : Options} {source after : Source}
    {outcome : Outcome} (h : faces.roll options source = (.ok outcome, after)) :
    after.remaining < source.remaining := by
  unfold Faces.roll at h
  split at h
  · exact remaining_lt_of_drawOutcome h
  · split at h
    · exact remaining_lt_of_drawOutcome h
    · cases h

end DiceNotation
