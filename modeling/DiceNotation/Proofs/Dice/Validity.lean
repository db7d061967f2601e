import DiceNotation.Dice.Group
import DiceNotation.Proofs.Dice.Die
import DiceNotation.Proofs.Dice.Notation

/-!
# Valid groups

A group is checked once, when it is built, and from then on only its fault is asked for. What the
dice rely on without looking again is `Group.IsSound`, and a group without a fault has it
(`Group.isSound_of_create`). Nothing but a refused draw can then stop its dice
(`Group.IsSound.error_of_roll`).
-/

namespace DiceNotation

variable {source after : Source} {faces : Faces} {options : Options}

/-! ## What is checked -/

namespace Group

/-- The group has dice, whose faces are those of a die, and its options leave dice to count: they
keep no more of them than are rolled, and drop fewer. -/
structure IsSound (group : Group) : Prop where
  dice : 1 ≤ group.dice ∧ group.dice ≤ maxDice
  die : group.faces.IsDie
  keep : group.options.kept ≤ group.dice
  drop : group.options.dropped < group.dice

theorem bounds_of_readCount {text : Text} {dice : Nat} (h : readCount text = (dice, none)) :
    1 ≤ dice ∧ dice ≤ maxDice := by
  rw [readCount] at h
  split at h
  · cases h
  · cases h
  · rename_i n _
    split at h
    · cases h
    · rename_i hpos
      split at h
      · cases h
      · rename_i hmax
        cases h
        exact ⟨Nat.le_of_not_lt hpos, Nat.le_of_not_lt hmax⟩

/-- Options without a fault leave some of the dice, if there are any. -/
theorem bounds_of_optionsFault? {dice : Nat} (hdice : 1 ≤ dice)
    (h : optionsFault? options dice = none) : options.kept ≤ dice ∧ options.dropped < dice := by
  rw [optionsFault?] at h
  split at h
  · cases h
  · split at h
    · cases h
    · rename_i hdropped
      split at h
      · cases h
      · rename_i hkept
        exact ⟨Nat.le_of_not_lt hkept, by omega⟩

variable {group : Group} {count word suffix : Text}

theorem isSound_assemble (h : (assemble count word suffix).error = none) :
    (assemble count word suffix).IsSound := by
  -- Without an error the count, the faces and the options were all accepted.
  rcases hcount : readCount (countText count) with ⟨dice, _ | error⟩
  · cases hfaces : readFaces word with
    | error error =>
      simp only [assemble, hcount, hfaces] at h
      cases h
    | ok die =>
      simp only [assemble, hcount, hfaces] at h ⊢
      have hdice := bounds_of_readCount hcount
      obtain ⟨hkeep, hdrop⟩ := bounds_of_optionsFault? hdice.1 h
      refine ⟨hdice, ?_, hkeep, hdrop⟩
      rcases readFaces_eq_ok hfaces with ⟨n, rfl, hn, -⟩ | rfl
      · exact Int.ofNat_le.2 hn
      · exact rfl
  · simp only [assemble, hcount] at h
    cases h

theorem eq_assemble_of_create (h : create count word suffix = .ok group) :
    group = assemble count word suffix := by
  rw [create] at h
  split at h
  · cases h
  · split at h <;> cases h
    rfl

theorem isSound_of_create (h : create count word suffix = .ok group)
    (hvalid : group.isValid = true) : group.IsSound := by
  obtain rfl := eq_assemble_of_create h
  exact isSound_assemble (Option.isNone_iff_eq_none.1 hvalid)

end Group

/-! ## What can stop the dice -/

variable {e : RollError}

/-- A roll of a die fails only if its draw does. -/
theorem Faces.IsDie.error_of_roll (hdie : faces.IsDie)
    (h : faces.roll options source = (.error e, after)) : ∃ refusal, e = .draw refusal := by
  rw [Faces.roll_eq_drawOutcome hdie, drawOutcome] at h
  split at h
  · cases h
  · cases h
    exact ⟨_, rfl⟩

theorem Faces.IsDie.error_of_rollPending (hdie : faces.IsDie) {pending budget : Nat}
    (h : rollPending faces options pending budget source = (.error e, after)) :
    ∃ refusal, e = .draw refusal := by
  fun_induction rollPending faces options pending budget source with
  | case1 => cases h
  | case2 budget source pending e after hroll =>
    cases h
    exact hdie.error_of_roll hroll
  | case3 budget source pending outcome after hroll again pending' e last hrest ih =>
    cases h
    exact ih hrest
  | case4 => cases h

theorem Faces.IsDie.error_of_throwDice (hdie : faces.IsDie) {count : Int}
    (h : throwDice count faces options source = (.error e, after)) :
    ∃ refusal, e = .draw refusal := by
  rw [throwDice] at h
  split at h
  · rename_i hpending
    cases h
    exact hdie.error_of_rollPending hpending
  · cases h

theorem Group.error_of_rollDice {group : Group} (hdie : group.faces.IsDie)
    (h : group.rollDice source = (.error e, after)) : ∃ refusal, e = .draw refusal := by
  rw [rollDice] at h
  split at h
  · rename_i hthrow
    cases h
    exact hdie.error_of_throwDice hthrow
  · cases h

end DiceNotation
