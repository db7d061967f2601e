import DiceNotation.Dice.Outcome

/-!
# One die

What the roll of one die comes to, for both kinds of dice at once. A die draws from an interval
(`Faces.interval`), shows a value for the integer drawn (`Faces.shown`) and explodes on some of them
(`Faces.explodesOn`). All else about a roll is the draw: `Faces.roll_eq_drawOutcome`.

A source is asked at the position it has reached. It *deals* a stream if it answers the draws from
there on with the integers of the stream (`Source.Deals`), however many of them it answers
(`Source.withLimit`), and it is moved on by the draws it has answered (`Source.advance`).
-/

namespace DiceNotation

/-! ## Dice -/

namespace Faces

/-- The faces that a die can have: at least two numbers, or those of the fudge die. -/
def IsDie : Faces → Prop
  | .number n => 2 ≤ n
  | .word text => text = fudgeFaces

/-- The interval that the die draws from. -/
def interval : Faces → Interval
  | .number n => ⟨1, n⟩
  | .word _ => ⟨1, 3⟩

/-- The value that the die shows for the integer drawn. -/
def shown : Faces → Int → Int
  | .number _, drawn => drawn
  | .word _, drawn => drawn - 2

/-- Whether the die explodes for the integer drawn: it has numbers, the options make it explode, and
    it shows its highest one. -/
def explodesOn (options : Options) : Faces → Int → Bool
  | .number n, drawn => options.exploding && drawn == n
  | .word _, _ => false

/-- The outcome of the die for the integer drawn, before the budget for rerolls is looked at. -/
def outcome (faces : Faces) (options : Options) (drawn : Int) : Outcome where
  value := faces.shown drawn
  rerolled := options.needsReroll (faces.shown drawn)
  exploded := faces.explodesOn options drawn

variable {faces : Faces} {options : Options}

theorem IsDie.interval_le (h : faces.IsDie) : faces.interval.low ≤ faces.interval.high := by
  cases faces with
  | number n => exact Int.le_trans (by decide : (1 : Int) ≤ 2) h
  | word text => exact (by decide : (1 : Int) ≤ 3)

/-- Rolling a die is a draw from its interval. -/
theorem roll_eq_drawOutcome (h : faces.IsDie) (source : Source) :
    faces.roll options source = drawOutcome faces.interval (faces.outcome options) source := by
  cases faces with
  | number n => rfl
  | word text =>
    obtain rfl : text = fudgeFaces := h
    rfl

end Faces

/-! ## Sources -/

namespace Source

/-- The source after `n` draws from an interval. -/
def advance (source : Source) (interval : Interval) (n : Nat) : Source :=
  { source with drawn := source.drawn ++ Array.replicate n interval }

/-- The source with another limit on its draws. -/
def withLimit (source : Source) (limit : Nat) : Source :=
  { source with limit := limit }

/-- From where it stands, the source answers draws from the interval with the integers of a
    stream. -/
def Deals (source : Source) (interval : Interval) (stream : Nat → Int) : Prop :=
  ∀ i, source.answer (source.drawn.size + i) interval = .ok (stream i)

variable {source : Source} {interval : Interval} {stream : Nat → Int}

@[simp]
theorem advance_zero : source.advance interval 0 = source := by
  simp [advance]

theorem advance_advance (m n : Nat) :
    (source.advance interval m).advance interval n = source.advance interval (m + n) := by
  simp only [advance, Array.append_assoc, Array.replicate_append_replicate]

theorem advance_one :
    source.advance interval 1 = { source with drawn := source.drawn.push interval } := by
  rw [advance, Array.push_eq_append]
  rfl

theorem remaining_advance_one : (source.advance interval 1).remaining = source.remaining - 1 := by
  simp only [remaining, advance_one, Array.size_push]
  omega

theorem Deals.withLimit (h : source.Deals interval stream) (limit : Nat) :
    (source.withLimit limit).Deals interval stream :=
  h

/-- After a draw the source deals the rest of the stream. -/
theorem Deals.tail (h : source.Deals interval stream) :
    (source.advance interval 1).Deals interval fun i => stream (i + 1) := by
  intro i
  rw [advance_one]
  simp only [Array.size_push]
  rw [Nat.add_assoc, Nat.add_comm 1 i]
  exact h (i + 1)

theorem draw_of_remaining_eq_zero (h : source.remaining = 0) :
    source.draw interval = (.error .tooMany, source.advance interval 1) := by
  rw [draw, if_pos (Nat.le_of_sub_eq_zero h), advance_one]

/-- As long as its limit is not reached, a source that deals a stream hands out its first
    integer. -/
theorem Deals.draw (h : source.Deals interval stream) (hne : interval.low ≤ interval.high)
    (hrem : 0 < source.remaining) :
    source.draw interval = (.ok (stream 0), source.advance interval 1) := by
  have hlimit : ¬ source.limit ≤ source.drawn.size := by
    rw [remaining] at hrem
    omega
  have hanswer : source.answer source.drawn.size interval = .ok (stream 0) := h 0
  rw [Source.draw, if_neg hlimit, if_neg (Int.not_lt.2 hne), hanswer, advance_one]

/-- A draw from an interval that holds integers is answered with one of them. -/
def AnswersInRange (source : Source) : Prop :=
  ∀ (i : Nat) (interval : Interval), interval.low ≤ interval.high →
    ∃ value, source.answer i interval = .ok value ∧ interval.contains value = true

theorem AnswersInRange.of_draw {result : Except DrawError Int} {after : Source}
    (hs : source.AnswersInRange) (h : source.draw interval = (result, after)) :
    after.AnswersInRange := by
  obtain rfl : (source.draw interval).2 = after := congrArg Prod.snd h
  exact hs

/-- Such a source refuses a draw only if it has answered as many as it may. -/
theorem AnswersInRange.error_of_draw {e : DrawError} {after : Source}
    (hs : source.AnswersInRange) (hne : interval.low ≤ interval.high)
    (h : source.draw interval = (.error e, after)) : e = .tooMany := by
  have herror := congrArg Prod.fst h
  rw [Source.draw] at herror
  obtain ⟨value, hvalue, -⟩ := hs source.drawn.size interval hne
  split at herror
  · cases herror
    rfl
  · rw [if_neg (Int.not_lt.2 hne), hvalue] at herror
    cases herror

end Source

end DiceNotation
