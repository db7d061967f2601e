import DiceNotation.Proofs.Dice.Budget

/-!
# Keeping and dropping

To keep some of the dice at one end of their order is to drop the others at the other end. For dice
that do not explode the two come to the same throw, die by die and mark by mark, from every source
(`throwDice_keep_eq_drop`). There are two sides to it.

* *Rolling:* How dice fall is up to their rules for rerolls, not to their selection
  (`rollPending_congr`).
* *Selecting:* Without explosions the pool holds the dice asked for, whatever the rerolls and
  however far their budget goes (`length_rankedPool_of_isCalm`), and in a pool of this size both
  selections cut out the same slice (`Options.bounds_keep_eq_drop`). It is the same slice of the
  same order, so that equals are told apart in the same way.
-/

namespace DiceNotation

variable {faces : Faces} {options other : Options} {source after : Source}

/-! ## Rolling -/

/-- Calm dice fall by the rules for rerolls alone. -/
theorem Faces.IsCalm.roll_congr (hcalm : faces.IsCalm options) (hcalm' : faces.IsCalm other)
    (hrerolls : options.rerolls = other.rerolls) (source : Source) :
    faces.roll options source = faces.roll other source := by
  have hneeds : options.needsReroll = other.needsReroll := by
    funext value
    rw [Options.needsReroll, Options.needsReroll, hrerolls]
  cases faces with
  | number n =>
    have houtcome : numberedOutcome n options = numberedOutcome n other := by
      funext value
      have hexploded : (options.exploding && value == n) = (other.exploding && value == n) :=
        (hcalm value).trans (hcalm' value).symm
      rw [numberedOutcome, numberedOutcome, hneeds, hexploded]
    rw [roll, roll, houtcome]
  | word text =>
    have houtcome : fudgeOutcome options = fudgeOutcome other := by
      funext drawn
      rw [fudgeOutcome, fudgeOutcome, hneeds]
    rw [roll, roll, houtcome]

/-- Dice that fall alike one by one do so together. -/
theorem rollPending_congr (h : ∀ source, faces.roll options source = faces.roll other source)
    (pending budget : Nat) (source : Source) :
    rollPending faces options pending budget source =
      rollPending faces other pending budget source := by
  fun_induction rollPending faces options pending budget source with
  | case1 budget source => rw [rollPending_zero]
  | case2 budget source pending e after hroll => rw [rollPending_succ, ← h, hroll]
  | case3 budget source pending outcome after hroll again pending' e last hrest ih =>
    rw [rollPending_succ, ← h, hroll]
    dsimp only
    rw [← ih, hrest]
  | case4 budget source pending outcome after hroll again pending' more last hrest ih =>
    rw [rollPending_succ, ← h, hroll]
    dsimp only
    rw [← ih, hrest]

/-! ## The size of the pool -/

theorem exploded_of_drawOutcome {interval : Interval} {shown : Int → Outcome} {outcome : Outcome}
    (hshown : ∀ drawn, (shown drawn).exploded = false)
    (h : drawOutcome interval shown source = (.ok outcome, after)) : outcome.exploded = false := by
  rw [drawOutcome] at h
  split at h
  · cases h
    exact hshown _
  · cases h

theorem Faces.IsCalm.exploded_of_roll (hcalm : faces.IsCalm options) {outcome : Outcome}
    (h : faces.roll options source = (.ok outcome, after)) : outcome.exploded = false := by
  cases faces with
  | number n =>
    refine exploded_of_drawOutcome ?_ h
    exact hcalm
  | word text =>
    rw [roll] at h
    split at h
    · refine exploded_of_drawOutcome ?_ h
      exact fun _ => rfl
    · cases h

theorem Faces.IsCalm.explodedCount_eq_zero (hcalm : faces.IsCalm options) (pending budget : Nat) :
    ∀ outcomes, rollPending faces options pending budget source = (.ok outcomes, after) →
      explodedCount outcomes = 0 := by
  fun_induction rollPending faces options pending budget source with
  | case1 =>
    rintro _ ⟨⟩
    rfl
  | case2 => rintro _ ⟨⟩
  | case3 => rintro _ ⟨⟩
  | case4 budget source pending outcome after hroll again pending' more last hrest ih =>
    rintro _ ⟨⟩
    have hmore : explodedCount more = 0 := ih _ hrest
    have hfirst : outcome.exploded = false := hcalm.exploded_of_roll hroll
    rw [explodedCount, List.countP_cons, hfirst]
    exact hmore

/-- As many calm dice are in the pool as were asked for: every reroll is made up for. -/
theorem length_rankedPool_of_isCalm (hcalm : faces.IsCalm options) {pending budget : Nat}
    {outcomes : List Outcome}
    (h : rollPending faces options pending budget source = (.ok outcomes, after)) :
    (rankedPool outcomes).length = pending := by
  rw [length_rankedPool, ← List.countP_eq_length_filter]
  have hpool := poolCount_rollPending pending budget outcomes h
  rwa [hcalm.explodedCount_eq_zero pending budget outcomes h] at hpool

/-! ## Selecting -/

/-- The other side. -/
def Side.opposite : Side → Side
  | .high => .low
  | .low => .high

/-- The dice that are kept at one end are left when the others are dropped at the other end. -/
theorem Selection.bounds_keep_eq_drop {count size : Nat} (hpos : 0 < count) (hlt : count < size)
    (side : Side) :
    (Selection.keep side count hpos).bounds size =
      (Selection.drop side.opposite (size - count) (Nat.sub_pos_of_lt hlt)).bounds size := by
  have hkeep : (Selection.keep side count hpos).count ≤ size := hlt.le
  have hdrop :
      (Selection.drop side.opposite (size - count) (Nat.sub_pos_of_lt hlt)).count ≤ size :=
    Nat.sub_le size count
  rw [bounds_eq hkeep, bounds_eq hdrop]
  cases side with
  | high => rfl
  | low => simp only [Side.opposite, Nat.sub_sub_self hlt.le]

/-- The selection that drops `count` dice, which is none if that is zero. -/
def Selection.drop? (side : Side) (count : Nat) : Option Selection :=
  if h : 0 < count then some (.drop side count h) else none

variable {kept dropped : Options}

theorem Options.bounds_keep_eq_drop {count size : Nat} (hpos : 0 < count) (hle : count ≤ size)
    (side : Side) (hkept : kept.selection = some (.keep side count hpos))
    (hdropped : dropped.selection = Selection.drop? side.opposite (size - count)) :
    kept.bounds size = dropped.bounds size := by
  rcases Nat.lt_or_eq_of_le hle with hlt | rfl
  · rw [Selection.drop?, dif_pos (Nat.sub_pos_of_lt hlt)] at hdropped
    rw [bounds, bounds, hkept, hdropped]
    exact Selection.bounds_keep_eq_drop hpos hlt side
  · -- All dice are kept, and none is dropped.
    have hall : (Selection.keep side count hpos).bounds count = (0, count) := by
      have hcount : (Selection.keep side count hpos).count ≤ count := Nat.le_refl count
      rw [Selection.bounds_eq hcount]
      cases side with
      | high => simp only [Nat.sub_self]
      | low => rfl
    rw [Nat.sub_self, Selection.drop?, dif_neg (Nat.lt_irrefl 0)] at hdropped
    rw [bounds, bounds, hkept, hdropped]
    exact hall

theorem Throw.ofOutcomes_congr {outcomes : List Outcome}
    (h : options.bounds (rankedPool outcomes).length = other.bounds (rankedPool outcomes).length) :
    Throw.ofOutcomes options outcomes = Throw.ofOutcomes other outcomes := by
  simp only [Throw.ofOutcomes, h]

/-- Of dice that do not explode, to keep `count` at one side is to drop all the others at the other
side. With the same rules for rerolls the two make the same draws of any source, and either the same
draw is refused, or the throws are equal: in every die with its value and its marks, and in the
total. -/
theorem throwDice_keep_eq_drop {dice count : Nat} (hpos : 0 < count) (hcount : count ≤ dice)
    (side : Side) (hkept : kept.selection = some (.keep side count hpos))
    (hdropped : dropped.selection = Selection.drop? side.opposite (dice - count))
    (hrerolls : kept.rerolls = dropped.rerolls)
    (hcalm : faces.isSpecial = true ∨ kept.exploding = false ∧ dropped.exploding = false)
    (source : Source) :
    throwDice dice faces kept source = throwDice dice faces dropped source := by
  have hcalmKept : faces.IsCalm kept :=
    Faces.isCalm_of_isSpecial_or (hcalm.imp_right And.left)
  have hcalmDropped : faces.IsCalm dropped :=
    Faces.isCalm_of_isSpecial_or (hcalm.imp_right And.right)
  have hrolled := rollPending_congr (hcalmKept.roll_congr hcalmDropped hrerolls)
    dice rerollBudget source
  rw [throwDice, throwDice, Int.toNat_natCast, ← hrolled]
  rcases hpending : rollPending faces kept dice rerollBudget source with ⟨e | outcomes, after⟩
  · rfl
  · have hsize := length_rankedPool_of_isCalm hcalmKept hpending
    have hbounds : kept.bounds (rankedPool outcomes).length =
        dropped.bounds (rankedPool outcomes).length := by
      rw [hsize]
      exact Options.bounds_keep_eq_drop hpos hcount side hkept hdropped
    dsimp only
    rw [Throw.ofOutcomes_congr hbounds]

/-- Three dice that are rolled again on a one, of which the highest counts: the two lowest are
dropped, and of two fives it is the earlier one. -/
theorem throwDice_highestOfThree :
    throwDice (3 : Nat) (.number 6) (Options.parse ['k', '1', 'r', '1']) (.scripted #[5, 1, 2, 5]) =
        throwDice (3 : Nat) (.number 6) (Options.parse ['d', '2', 'r', '1'])
          (.scripted #[5, 1, 2, 5]) ∧
      (throwDice (3 : Nat) (.number 6) (Options.parse ['d', '2', 'r', '1'])
          (.scripted #[5, 1, 2, 5])).1 =
        .ok ⟨[{ value := 5, dropped := true }, { value := 1, rerolled := true },
          { value := 2, dropped := true }, { value := 5 }], 5⟩ := by
  have hkept : (Options.parse ['k', '1', 'r', '1']).selection =
      some (.keep .high 1 (by decide)) := by cbv
  have hdropped : (Options.parse ['d', '2', 'r', '1']).selection =
      some (.drop .low 2 (by decide)) := by cbv
  have hrerolls : (Options.parse ['k', '1', 'r', '1']).rerolls =
      (Options.parse ['d', '2', 'r', '1']).rerolls := by cbv
  have hcalm : (Options.parse ['k', '1', 'r', '1']).exploding = false ∧
      (Options.parse ['d', '2', 'r', '1']).exploding = false := ⟨by cbv, by cbv⟩
  refine ⟨?_, by cbv⟩
  exact throwDice_keep_eq_drop (by decide) (by decide : 1 ≤ 3) .high hkept hdropped hrerolls
    (.inr hcalm) _

end DiceNotation
