import DiceNotation.Text.Basic

/-!
# Sources of draws

Dice are rolled by drawing integers from a source. A source answers the draw at each position of its
stream for each interval, and it keeps the intervals that were asked of it, so that what a roll has
drawn can be told afterwards (`Source.runs`). It answers a limited number of draws: every answered
draw brings it nearer to its limit (`Source.remaining_lt_of_draw`), which is why no roll goes on
forever.

Three kinds of source are provided: a fixed script, a script that is repeated, and a linear
congruential generator modulo `2^64`. The state of the generator at any position of the stream is
found without the states before it, by squaring its step (`Affine.apply_iterate`).
-/

namespace DiceNotation

/-- The integers from `low` to `high`, both included. -/
structure Interval where
  low : Int
  high : Int
  deriving DecidableEq

/-- Whether an integer lies in the interval. -/
def Interval.contains (interval : Interval) (n : Int) : Bool :=
  decide (interval.low ≤ n) && decide (n ≤ interval.high)

/-- Why a draw is refused. -/
inductive DrawError
  /-- The source has answered as many draws as it may. -/
  | tooMany
  /-- The interval holds no integer. -/
  | emptyInterval (interval : Interval)
  /-- The script of the source has ended after `count` draws. -/
  | exhausted (count : Nat)
  /-- The script of the source has an integer that is not in the interval. -/
  | outside (value : Int) (interval : Interval)
  deriving DecidableEq

/-- The interval as it is shown in messages. -/
def Interval.text (interval : Interval) : Text :=
  '[' :: integerText interval.low ++ [',', ' '] ++ integerText interval.high ++ [']']

/-- The wording of the refusal. -/
def DrawError.message : DrawError → String
  | .tooMany => "too many rolls"
  | .emptyInterval interval => "empty range " ++ String.ofList interval.text
  | .exhausted count => "script exhausted after " ++ String.ofList (decimalText count) ++ " rolls"
  | .outside value interval =>
    "value " ++ String.ofList (integerText value) ++ " outside " ++ String.ofList interval.text

/-- A stream of answers, with the draws made so far. -/
structure Source where
  /-- The answer to the draw at a position of the stream, counted from zero. -/
  answer : Nat → Interval → Except DrawError Int
  /-- How many draws are answered. -/
  limit : Nat
  /-- The intervals that were drawn from, refused draws included, in order. -/
  drawn : Array Interval := #[]

namespace Source

/-- How many more draws are answered. -/
def remaining (source : Source) : Nat :=
  source.limit - source.drawn.size

/-- Draws an integer from an interval. The draw is recorded even if it is refused. -/
def draw (source : Source) (interval : Interval) : Except DrawError Int × Source :=
  (if source.limit ≤ source.drawn.size then .error .tooMany
    else if interval.high < interval.low then .error (.emptyInterval interval)
    else source.answer source.drawn.size interval,
   { source with drawn := source.drawn.push interval })

/-- An answered draw leaves fewer draws. -/
theorem remaining_lt_of_draw {source after : Source} {interval : Interval} {value : Int}
    (h : source.draw interval = (.ok value, after)) : after.remaining < source.remaining := by
  simp only [draw, Prod.mk.injEq] at h
  obtain ⟨hanswer, rfl⟩ := h
  split at hanswer
  · cases hanswer
  · simp only [remaining, Array.size_push]
    omega

/-- Adds one interval to the front of a list of runs. -/
def addRun (interval : Interval) : List (Interval × Nat) → List (Interval × Nat)
  | (other, count) :: runs =>
    if interval = other then (other, count + 1) :: runs else (interval, 1) :: (other, count) :: runs
  | [] => [(interval, 1)]

/-- The intervals drawn from, with repeated ones counted: neighbours in the list differ. -/
def runs (source : Source) : List (Interval × Nat) :=
  source.drawn.toList.foldr addRun []

/-- How many draws a source answers unless it is given another limit. -/
def usualLimit : Nat := 20000

/-- Checks an integer from a script against the interval that is drawn from. -/
def accept (interval : Interval) (value : Int) : Except DrawError Int :=
  if interval.contains value then .ok value else .error (.outside value interval)

/-- The source that answers with the integers of a script, one after the other. -/
def scripted (script : Array Int) : Source where
  answer position interval :=
    match script[position]? with
    | some value => accept interval value
    | none => .error (.exhausted position)
  limit := usualLimit

/-- The source that answers with the integers of a script over and over. -/
def cyclic (script : Array Int) : Source where
  answer position interval :=
    match script[position % script.size]? with
    | some value => accept interval value
    | none => .error (.exhausted position)
  limit := usualLimit

end Source

/-! ## The linear congruential generator -/

/-- A map `x ↦ factor * x + offset` modulo `2^64`. -/
structure Affine where
  factor : UInt64
  offset : UInt64
  deriving DecidableEq

namespace Affine

/-- The value of the map. -/
def apply (f : Affine) (x : UInt64) : UInt64 :=
  f.factor * x + f.offset

/-- The map `f` after the map `g`. -/
def comp (f g : Affine) : Affine :=
  ⟨f.factor * g.factor, f.factor * g.offset + f.offset⟩

/-- The map applied `n` times over, found by repeated squaring. -/
def iterate (f : Affine) (n : Nat) : Affine :=
  if n = 0 then ⟨1, 0⟩
  else
    let half := f.iterate (n / 2)
    if n % 2 = 0 then half.comp half else f.comp (half.comp half)
termination_by n

theorem apply_comp (f g : Affine) (x : UInt64) : (f.comp g).apply x = f.apply (g.apply x) := by
  simp only [comp, apply]
  grind

theorem repeat_add {α : Type} (f : α → α) (m n : Nat) (a : α) :
    Nat.repeat f (m + n) a = Nat.repeat f m (Nat.repeat f n a) := by
  induction m with
  | zero => rw [Nat.zero_add, Nat.repeat]
  | succ m ih => rw [Nat.succ_add, Nat.repeat, Nat.repeat, ih]

/-- Squaring comes to the same as taking one step after the other. -/
theorem apply_iterate (f : Affine) (n : Nat) (x : UInt64) :
    (f.iterate n).apply x = Nat.repeat f.apply n x := by
  fun_induction iterate f n generalizing x with
  | case1 => simp [apply, Nat.repeat]
  | case2 n _ half heven ih =>
    rw [apply_comp, ih, ih, ← repeat_add]
    congr 1
    omega
  | case3 n _ half hodd ih =>
    have hn : n = (n / 2 + n / 2) + 1 := by omega
    rw [apply_comp, apply_comp, ih, ih, ← repeat_add]
    conv => rhs; rw [hn, Nat.repeat]

end Affine

/-- One step of the generator. -/
def generatorStep : Affine := ⟨6364136223846793005, 1442695040888963407⟩

/-- The source that steps the generator from a seed and answers with the upper bits of its state. -/
def Source.generated (seed : Int) : Source where
  answer position interval :=
    let state := (generatorStep.iterate (position + 1)).apply (UInt64.ofInt seed)
    .ok (interval.low + (state >>> 33).toNat % (interval.high - interval.low + 1))
  limit := usualLimit

end DiceNotation
