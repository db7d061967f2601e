import DiceNotation.Dice.Group

/-!
# Stretches of a source

Dice take from a source a stretch of its stream: they are thrown as they would be by a fresh source
that answers from there on (`Source.rest`), and the intervals that they ask for are added to those
that were asked for before (`Source.extend`). This holds of every throw, whether or not it succeeds
(`exists_throwDice_rest`), since a throw does nothing with a source but draw.
-/

namespace DiceNotation

namespace Source

/-- What the source still has to answer, as a source that nothing was drawn from. -/
def rest (source : Source) : Source where
  answer i := source.answer (source.drawn.size + i)
  limit := source.remaining

/-- The source after further draws from some intervals. -/
def extend (source : Source) (calls : List Interval) : Source :=
  { source with drawn := source.drawn ++ calls.toArray }

/-- The second source has made the draws of `source`, and after them those of the first one, which
began where `source` stands. -/
inductive Aligned (source : Source) : Source → Source → Prop
  | extend (calls : List Interval) : Aligned source (source.rest.extend calls) (source.extend calls)

/-- Whether it begins afresh or behind the draws of another source makes no difference to what an
action on sources returns, nor to the draws it makes. -/
def IsDrawing {α : Type} (action : Source → α × Source) : Prop :=
  ∀ ⦃source fresh whole : Source⦄, Aligned source fresh whole →
    ∃ last, action whole = ((action fresh).1, last) ∧ Aligned source (action fresh).2 last

@[simp]
theorem extend_nil (source : Source) : source.extend [] = source := by
  rw [extend, Array.append_empty]

theorem extend_extend (source : Source) (calls more : List Interval) :
    (source.extend calls).extend more = source.extend (calls ++ more) := by
  simp only [extend, Array.append_assoc, List.append_toArray]

theorem isDrawing_draw (interval : Interval) : IsDrawing fun source => source.draw interval := by
  rintro source _ _ ⟨calls⟩
  -- Both sources reach their limits at once, and are asked at the same position of the stream.
  have hlimit : source.limit ≤ source.drawn.size + calls.length ↔
      source.limit - source.drawn.size ≤ calls.length :=
    Nat.sub_le_iff_le_add'.symm
  have hpush : ∀ base : Source, { base.extend calls with
      drawn := (base.extend calls).drawn.push interval } = base.extend (calls ++ [interval]) := by
    intro base
    simp [extend]
  refine ⟨source.extend (calls ++ [interval]), ?_, ?_⟩
  · rw [← hpush]
    simp [draw, extend, rest, remaining, hlimit]
  · simp only [draw]
    rw [hpush]
    exact .extend _

end Source

open Source

theorem isDrawing_drawOutcome (interval : Interval) (outcome : Int → Outcome) :
    IsDrawing (drawOutcome interval outcome) := by
  intro source fresh whole h
  obtain ⟨last, hwhole, hlast⟩ := isDrawing_draw interval h
  dsimp only at hwhole hlast
  rw [drawOutcome, drawOutcome, hwhole]
  generalize fresh.draw interval = drawn at hlast ⊢
  obtain ⟨result, after⟩ := drawn
  cases result <;> exact ⟨last, rfl, hlast⟩

theorem isDrawing_roll (faces : Faces) (options : Options) : IsDrawing (faces.roll options) := by
  cases faces with
  | number n => exact isDrawing_drawOutcome _ _
  | word text =>
    intro source fresh whole h
    rw [Faces.roll, Faces.roll]
    split
    · exact isDrawing_drawOutcome _ _ h
    · exact ⟨whole, rfl, h⟩

theorem isDrawing_rollPending (faces : Faces) (options : Options) (pending budget : Nat) :
    IsDrawing (rollPending faces options pending budget) := by
  intro source fresh whole h
  fun_induction rollPending faces options pending budget fresh generalizing whole with
  | case1 budget fresh => exact ⟨whole, rollPending_zero _ _ _ _, h⟩
  | case2 budget fresh pending e after hroll =>
    obtain ⟨later, hwhole, hlater⟩ := isDrawing_roll faces options h
    rw [hroll] at hwhole hlater
    rw [rollPending_succ, hwhole]
    exact ⟨later, rfl, hlater⟩
  | case3 | case4 =>
    -- the first die is rolled, and the induction hypothesis is about those it leaves pending
    rename_i hroll _ _ _ _ hrest ih
    obtain ⟨later, hwhole, hlater⟩ := isDrawing_roll faces options h
    rw [hroll] at hwhole hlater
    obtain ⟨last, hmore, hlast⟩ := ih hlater
    rw [hrest] at hmore hlast
    rw [rollPending_succ, hwhole]
    dsimp only at hmore ⊢
    rw [hmore]
    exact ⟨last, rfl, hlast⟩

theorem isDrawing_throwDice (count : Int) (faces : Faces) (options : Options) :
    IsDrawing (throwDice count faces options) := by
  intro source fresh whole h
  obtain ⟨last, hwhole, hlast⟩ :=
    isDrawing_rollPending faces options count.toNat rerollBudget h
  rw [throwDice, throwDice, hwhole]
  generalize rollPending faces options count.toNat rerollBudget fresh = rolled at hlast ⊢
  obtain ⟨result, after⟩ := rolled
  cases result <;> exact ⟨last, rfl, hlast⟩

/-- An action on sources takes a stretch of the source, as it would from a fresh one. -/
theorem Source.IsDrawing.exists_rest {α : Type} {action : Source → α × Source}
    (h : IsDrawing action) (source : Source) :
    ∃ calls, (action source.rest).2 = source.rest.extend calls ∧
      action source = ((action source.rest).1, source.extend calls) := by
  have hstart : Aligned source (source.rest.extend []) (source.extend []) := .extend []
  rw [extend_nil, extend_nil] at hstart
  obtain ⟨last, hwhole, hlast⟩ := h hstart
  generalize action source.rest = rolled at hwhole hlast ⊢
  obtain ⟨result, after⟩ := rolled
  obtain ⟨calls⟩ := hlast
  exact ⟨calls, rfl, hwhole⟩

/-- The dice of a throw take a stretch of the source: the throw is that of a fresh source that
answers from there on, and its draws are added to those that were made. -/
theorem exists_throwDice_rest (count : Int) (faces : Faces) (options : Options) (source : Source) :
    ∃ calls, (throwDice count faces options source.rest).2 = source.rest.extend calls ∧
      throwDice count faces options source =
        ((throwDice count faces options source.rest).1, source.extend calls) :=
  (isDrawing_throwDice count faces options).exists_rest source

end DiceNotation
