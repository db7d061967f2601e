import DiceNotation.Proofs.Dice.Rolling
import DiceNotation.Proofs.Dice.Stretch
import DiceNotation.Proofs.Dice.Tally

/-!
# Dice that do not explode

Without explosions a roll comes to its end, whatever the rules for rerolls are and however the dice
fall. The dice still pending and what is left of the budget for rerolls are a measure for it: a
reroll puts back a pending die, but takes one from the budget, and so the sum of the two goes down
by one with every draw (`rollPending_ends`). This also tells the number of draws. It is the number
of dice plus the number of outcomes that a rule asks to roll again, as far as the budget goes
(`throwDice_ends`).
-/

namespace DiceNotation

variable {source : Source} {faces : Faces} {options : Options}

/-! ## Draws in range -/

namespace Source

theorem remaining_extend (source : Source) (calls : List Interval) :
    (source.extend calls).remaining = source.remaining - calls.length := by
  simp only [remaining, extend, Array.size_append, List.size_toArray]
  omega

theorem AnswersInRange.extend (hs : source.AnswersInRange) (calls : List Interval) :
    (source.extend calls).AnswersInRange :=
  hs

theorem AnswersInRange.rest (hs : source.AnswersInRange) : source.rest.AnswersInRange :=
  fun i => hs (source.drawn.size + i)

theorem answersInRange_generated (seed : Int) : (generated seed).AnswersInRange :=
  fun i interval hne => ⟨_, rfl, staysInRange_generated seed i interval _ hne rfl⟩

/-- A source that answers in range answers every draw before its limit. -/
theorem AnswersInRange.exists_draw (hs : source.AnswersInRange) {interval : Interval}
    (hne : interval.low ≤ interval.high) (hrem : 0 < source.remaining) :
    ∃ value, source.draw interval = (.ok value, source.extend [interval]) := by
  obtain ⟨value, hvalue, -⟩ := hs source.drawn.size interval hne
  have hlimit : ¬source.limit ≤ source.drawn.size := by
    rw [remaining] at hrem
    omega
  refine ⟨value, ?_⟩
  rw [draw, if_neg hlimit, if_neg (Int.not_lt.2 hne), hvalue, Source.extend, Array.push_eq_append]

end Source

/-! ## Rolling -/

/-- The options never let the die explode. -/
def Faces.IsCalm (faces : Faces) (options : Options) : Prop :=
  ∀ drawn, faces.explodesOn options drawn = false

/-- Fudge dice never explode, and numbered ones do only if the options say so. -/
theorem Faces.isCalm_of_isSpecial_or (h : faces.isSpecial = true ∨ options.exploding = false) :
    faces.IsCalm options := by
  intro drawn
  cases faces with
  | number n =>
    rcases h with hspecial | hexploding
    · cases hspecial
    · rw [explodesOn, hexploding, Bool.false_and]
  | word text => rfl

/-- How many of the outcomes a rule asks to roll again. -/
def matchedCount (options : Options) (outcomes : List Outcome) : Nat :=
  outcomes.countP fun o => options.needsReroll o.value

theorem matchedCount_cons (outcome : Outcome) (outcomes : List Outcome) :
    matchedCount options (outcome :: outcomes) =
      matchedCount options outcomes + (options.needsReroll outcome.value).toNat := by
  rw [matchedCount, matchedCount, List.countP_cons]
  cases options.needsReroll outcome.value <;> rfl

/-- A reroll that is asked for is paid for as long as there is budget. -/
theorem min_budget_of_again {asked again : Bool} {budget : Nat}
    (h : (asked && decide (0 < budget)) = again) (more : Nat) :
    again.toNat ≤ budget ∧
      again.toNat + min (budget - again.toNat) more = min budget (more + asked.toNat) := by
  subst h
  cases asked with
  | false => simp only [Bool.false_and, Bool.toNat_false]; omega
  | true =>
    by_cases hb : 0 < budget
    · simp only [hb, decide_true, Bool.and_self, Bool.toNat_true]; omega
    · simp only [hb, decide_false, Bool.and_false, Bool.toNat_false, Bool.toNat_true]; omega

/-- The first die of several is put before those it leaves pending, with its draw before theirs. -/
theorem rollPending_succ_of_again {outcome : Outcome} {outcomes : List Outcome}
    {interval : Interval} {pending budget : Nat} {again : Bool}
    (hroll : faces.roll options source = (.ok outcome, source.extend [interval]))
    (hexploded : outcome.exploded = false)
    (hagain : (outcome.rerolled && decide (0 < budget)) = again)
    (hmore : rollPending faces options (pending + again.toNat) (budget - again.toNat)
        (source.extend [interval]) =
      (.ok outcomes,
        (source.extend [interval]).extend (List.replicate outcomes.length interval))) :
    rollPending faces options (pending + 1) budget source =
      (.ok ({ outcome with rerolled := again } :: outcomes),
        source.extend (List.replicate (outcomes.length + 1) interval)) := by
  rw [rollPending_succ, hroll]
  simp only [hexploded, hagain, Bool.toNat_false, Nat.add_zero, hmore]
  rw [Source.extend_extend, List.replicate_succ, List.singleton_append]

/-- Dice that do not explode are rolled to the end, each with a draw, by every source that answers
in range and as often as there are dice and rerolls to pay for. -/
theorem rollPending_ends (hdie : faces.IsDie) (hcalm : faces.IsCalm options)
    (hs : source.AnswersInRange) {pending budget : Nat}
    (hrem : pending + budget ≤ source.remaining) :
    ∃ outcomes, rollPending faces options pending budget source =
        (.ok outcomes, source.extend (List.replicate outcomes.length faces.interval)) ∧
      outcomes.length = pending + min budget (matchedCount options outcomes) := by
  -- Pending dice and budget together go down by one with every draw.
  induction hmeasure : pending + budget using Nat.strongRecOn
    generalizing source pending budget with
  | ind measure ih =>
    cases pending with
    | zero =>
      refine ⟨[], ?_, ?_⟩
      · rw [rollPending_zero, List.length_nil, List.replicate_zero, Source.extend_nil]
      · rw [matchedCount, List.countP_nil, Nat.min_zero, List.length_nil]
    | succ pending =>
      obtain ⟨drawn, hdraw⟩ := hs.exists_draw hdie.interval_le (by omega)
      have hroll : faces.roll options source =
          (.ok (faces.outcome options drawn), source.extend [faces.interval]) := by
        rw [Faces.roll_eq_drawOutcome hdie, drawOutcome, hdraw]
      obtain ⟨again, hagain⟩ : ∃ again,
          (options.needsReroll (faces.shown drawn) && decide (0 < budget)) = again := ⟨_, rfl⟩
      have hpaid := min_budget_of_again hagain
      have hrest : pending + again.toNat + (budget - again.toNat) ≤
          (source.extend [faces.interval]).remaining := by
        have hle := (hpaid 0).1
        rw [source.remaining_extend, List.length_singleton]
        omega
      have hless : pending + again.toNat + (budget - again.toNat) < measure := by
        have hle := (hpaid 0).1
        omega
      obtain ⟨outcomes, hmore, hlength⟩ := ih _ hless (hs.extend _) hrest rfl
      refine ⟨_, rollPending_succ_of_again hroll (hcalm drawn) hagain hmore, ?_⟩
      have hcount := (hpaid (matchedCount options outcomes)).2
      rw [List.length_cons, hlength, matchedCount_cons]
      dsimp only [Faces.outcome]
      omega

/-- A group of dice that do not explode is thrown to the end. It makes a draw for each of its dice,
and one more for each of its outcomes that a rule asks to roll again, as far as the budget goes. -/
theorem throwDice_ends (hdie : faces.IsDie) (hcalm : faces.IsCalm options)
    (hs : source.AnswersInRange) {dice : Nat} (hrem : dice + rerollBudget ≤ source.remaining) :
    ∃ throw, throwDice dice faces options source =
        (.ok throw, source.extend (List.replicate throw.outcomes.length faces.interval)) ∧
      throw.outcomes.length = dice + min rerollBudget (matchedCount options throw.outcomes) := by
  obtain ⟨outcomes, hrolled, hlength⟩ := rollPending_ends hdie hcalm hs hrem
  have hmarked : (Throw.ofOutcomes options outcomes).outcomes.length = outcomes.length := by
    simp only [Throw.ofOutcomes, markDropped, List.length_map, List.length_zipIdx]
  have hmatched : matchedCount options (Throw.ofOutcomes options outcomes).outcomes =
      matchedCount options outcomes := countP_markDropped _ (fun _ _ => rfl) _ _
  refine ⟨Throw.ofOutcomes options outcomes, ?_, ?_⟩
  · rw [hmarked]
    exact throwDice_of_rollPending hrolled
  · rw [hmarked, hmatched, hlength]

end DiceNotation
