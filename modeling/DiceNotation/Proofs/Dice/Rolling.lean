import DiceNotation.Proofs.Dice.Die
import DiceNotation.Dice.Pool
import Mathlib.Order.Bounds.Basic
import Mathlib.Data.Nat.Count

/-!
# How long dice are rolled

The number of dice that a group rolls depends on what they show: a die that has to be rolled again
is replaced as long as the budget lasts, and an exploding die is followed by another. Against a
stream of draws (`DiceRun`) this comes down to one inequality. After `n` dice, the group has asked
for `DiceRun.asked n` of them: those it began with, the rerolls paid for and the explosions. It ends
at the least `n` with `asked n ≤ n`, where the two are equal, and if there is none it goes on for as
long as draws are answered.

* `rollPending_of_isLeast`: the dice rolled up to the least such `n`, with their marks;
* `rollPending_of_short`: a source that answers fewer draws is exhausted;
* `throwDice_ends_iff_and_isLeast`: both for a group, with or without an end.

Both go by induction on the draws, and what carries it is that the first die passes its debts on to
the rest of the stream (`DiceRun.asked_succ`).
-/

namespace DiceNotation

/-- Dice of one kind that fall as a stream of integers drawn says. -/
structure DiceRun where
  faces : Faces
  options : Options
  stream : Nat → Int

namespace DiceRun

variable (run : DiceRun)

/-- The value of the `i`-th die. -/
def value (i : Nat) : Int :=
  run.faces.shown (run.stream i)

/-- Whether a rule asks to roll the `i`-th die again. -/
def matched (i : Nat) : Bool :=
  run.options.needsReroll (run.value i)

/-- Whether the `i`-th die explodes. -/
def explodes (i : Nat) : Bool :=
  run.faces.explodesOn run.options (run.stream i)

/-- How many of the first `n` dice a rule asks to roll again. -/
def matchCount (n : Nat) : Nat :=
  Nat.count (fun i => run.matched i) n

/-- How many of the first `n` dice explode. -/
def explosionCount (n : Nat) : Nat :=
  Nat.count (fun i => run.explodes i) n

/-- How many dice a group of `dice` dice has asked for after `n` of them, if `budget` dice may be
    rolled again. -/
def asked (dice budget n : Nat) : Nat :=
  dice + min budget (run.matchCount n) + run.explosionCount n

/-- The outcome of the `i`-th die: it counts as rolled again if fewer than `budget` dice before it
    had to be. -/
def outcome (budget i : Nat) : Outcome where
  value := run.value i
  rerolled := run.matched i && decide (run.matchCount i < budget)
  exploded := run.explodes i

/-- The dice after the first one. -/
def tail : DiceRun :=
  { run with stream := fun i => run.stream (i + 1) }

/-- Whether the first die is rolled again out of the budget. -/
def again (budget : Nat) : Bool :=
  run.matched 0 && decide (0 < budget)

/-! ## Counting -/

theorem count_succ (p : Nat → Bool) (n : Nat) :
    Nat.count (fun i => p i) (n + 1) = Nat.count (fun i => p (i + 1)) n + (p 0).toNat := by
  rw [Nat.count_succ']
  cases p 0 <;> rfl

theorem matchCount_succ (n : Nat) :
    run.matchCount (n + 1) = run.tail.matchCount n + (run.matched 0).toNat :=
  count_succ run.matched n

theorem explosionCount_succ (n : Nat) :
    run.explosionCount (n + 1) = run.tail.explosionCount n + (run.explodes 0).toNat :=
  count_succ run.explodes n

theorem asked_zero (dice budget : Nat) : run.asked dice budget 0 = dice := by
  simp only [asked, matchCount, explosionCount, Nat.count_zero, Nat.min_zero, Nat.add_zero]

theorem asked_mono (dice budget : Nat) {m n : Nat} (h : m ≤ n) :
    run.asked dice budget m ≤ run.asked dice budget n := by
  have hmatch : run.matchCount m ≤ run.matchCount n := Nat.count_monotone _ h
  have hexplode : run.explosionCount m ≤ run.explosionCount n := Nat.count_monotone _ h
  rw [asked, asked]
  omega

/-- The first die of several leaves it to the others to cover the dice still pending, its own
    replacement and its explosion included, out of what is left of the budget. -/
theorem asked_succ (dice budget n : Nat) :
    run.asked (dice + 1) budget (n + 1) =
      run.tail.asked (dice + (run.again budget).toNat + (run.explodes 0).toNat)
        (budget - (run.again budget).toNat) n + 1 := by
  rw [asked, asked, matchCount_succ, explosionCount_succ, again]
  -- A replacement becomes pending when the budget pays for it, so that it is counted once.
  cases run.matched 0 with
  | false => simp only [Bool.false_and, Bool.toNat_false]; omega
  | true =>
    by_cases hb : 0 < budget
    · simp only [hb, decide_true, Bool.and_self, Bool.toNat_true]; omega
    · simp only [hb, decide_false, Bool.and_false, Bool.toNat_false, Bool.toNat_true]; omega

/-- A group that still asks for dice before the first roll has dice. -/
theorem pos_of_short {dice budget bound : Nat}
    (h : ∀ n ≤ bound, n < run.asked dice budget n) : 0 < dice := by
  have hzero := h 0 (Nat.zero_le bound)
  rwa [run.asked_zero] at hzero

/-- What a group has asked for when it ends is what it has rolled. -/
theorem asked_eq_of_isLeast {dice budget n : Nat}
    (h : IsLeast {n | run.asked dice budget n ≤ n} n) : run.asked dice budget n = n := by
  refine Nat.le_antisymm h.1 ?_
  cases n with
  | zero => exact Nat.zero_le _
  | succ k =>
    have hk : k < run.asked dice budget k :=
      Nat.lt_of_not_le fun hle => absurd (h.2 hle) (Nat.not_succ_le_self k)
    exact Nat.le_trans hk (run.asked_mono dice budget (Nat.le_succ k))

theorem outcome_succ (budget i : Nat) :
    run.outcome budget (i + 1) = run.tail.outcome (budget - (run.again budget).toNat) i := by
  have hbudget : run.matchCount (i + 1) < budget ↔
      run.tail.matchCount i < budget - (run.again budget).toNat := by
    rw [matchCount_succ, again]
    cases run.matched 0 with
    | false => simp only [Bool.false_and, Bool.toNat_false]; omega
    | true =>
      by_cases hb : 0 < budget
      · simp only [hb, decide_true, Bool.and_self, Bool.toNat_true]; omega
      · simp only [hb, decide_false, Bool.and_false, Bool.toNat_false, Bool.toNat_true]; omega
  simp only [outcome, hbudget]
  rfl

theorem map_outcome_succ (budget n : Nat) :
    (List.range (n + 1)).map (run.outcome budget) =
      run.outcome budget 0 ::
        (List.range n).map (run.tail.outcome (budget - (run.again budget).toNat)) := by
  rw [List.range_succ_eq_map, List.map_cons, List.map_map]
  congr 1
  exact List.map_congr_left fun i _ => run.outcome_succ budget i

end DiceRun

/-! ## Rolling -/

variable {run : DiceRun} {source : Source}

/-- One die of several, as long as draws are answered: it is put before the dice rolled after it. -/
theorem rollPending_succ_of_deals (hdie : run.faces.IsDie)
    (hs : source.Deals run.faces.interval run.stream) (hrem : 0 < source.remaining)
    (dice budget : Nat) :
    rollPending run.faces run.options (dice + 1) budget source =
      match rollPending run.tail.faces run.tail.options
          (dice + (run.again budget).toNat + (run.explodes 0).toNat)
          (budget - (run.again budget).toNat) (source.advance run.faces.interval 1) with
      | (.error e, last) => (.error e, last)
      | (.ok outcomes, last) => (.ok (run.outcome budget 0 :: outcomes), last) := by
  rw [rollPending_succ, Faces.roll_eq_drawOutcome hdie, drawOutcome,
    hs.draw hdie.interval_le hrem]
  rfl

/-- The end of the roll of several dice is the end of the roll of those after the first. -/
theorem DiceRun.isLeast_tail {dice budget n : Nat}
    (h : IsLeast {n | run.asked (dice + 1) budget n ≤ n} (n + 1)) :
    IsLeast {n | run.tail.asked (dice + (run.again budget).toNat + (run.explodes 0).toNat)
      (budget - (run.again budget).toNat) n ≤ n} n := by
  constructor
  · have hle : run.asked (dice + 1) budget (n + 1) ≤ n + 1 := h.1
    rw [asked_succ] at hle
    exact Nat.le_of_succ_le_succ hle
  · intro m hm
    have hle : run.asked (dice + 1) budget (m + 1) ≤ m + 1 := by
      rw [asked_succ]
      exact Nat.succ_le_succ hm
    exact Nat.le_of_succ_le_succ (h.2 hle)

/-- A source that answers enough draws lets the roll come to its end. -/
theorem rollPending_of_isLeast (hdie : run.faces.IsDie)
    (hs : source.Deals run.faces.interval run.stream) {dice budget n : Nat}
    (hn : IsLeast {n | run.asked dice budget n ≤ n} n) (hrem : n ≤ source.remaining) :
    rollPending run.faces run.options dice budget source =
      (.ok ((List.range n).map (run.outcome budget)), source.advance run.faces.interval n) := by
  -- The first die leaves the others a run with one draw less to its end.
  induction n generalizing run source dice budget with
  | zero =>
    obtain rfl : dice = 0 := Nat.le_zero.1 (run.asked_zero dice budget ▸ hn.1)
    rw [rollPending_zero, Source.advance_zero]
    rfl
  | succ n ih =>
    cases dice with
    | zero => exact absurd (hn.2 (run.asked_zero 0 budget).le) (Nat.not_succ_le_zero n)
    | succ dice =>
      have hrest : n ≤ (source.advance run.faces.interval 1).remaining := by
        rw [Source.remaining_advance_one]
        omega
      rw [rollPending_succ_of_deals hdie hs (by omega),
        ih (show run.tail.faces.IsDie from hdie) hs.tail (DiceRun.isLeast_tail hn) hrest,
        run.map_outcome_succ]
      simp only [DiceRun.tail, Source.advance_advance, Nat.add_comm 1 n]

/-- A source that answers too few draws for an end is exhausted. -/
theorem rollPending_of_short (hdie : run.faces.IsDie)
    (hs : source.Deals run.faces.interval run.stream) {dice budget : Nat}
    (hshort : ∀ n ≤ source.remaining, n < run.asked dice budget n) :
    ∃ after, rollPending run.faces run.options dice budget source =
      (.error (.draw .tooMany), after) := by
  -- Each die uses up a draw, and those after it are short of draws in their turn.
  induction hr : source.remaining generalizing run source dice budget with
  | zero =>
    obtain ⟨dice, rfl⟩ := Nat.exists_eq_succ_of_ne_zero (run.pos_of_short hshort).ne'
    refine ⟨source.advance run.faces.interval 1, ?_⟩
    rw [rollPending_succ, Faces.roll_eq_drawOutcome hdie, drawOutcome,
      Source.draw_of_remaining_eq_zero hr]
  | succ r ih =>
    obtain ⟨dice, rfl⟩ := Nat.exists_eq_succ_of_ne_zero (run.pos_of_short hshort).ne'
    have hrest : (source.advance run.faces.interval 1).remaining = r := by
      rw [Source.remaining_advance_one, hr, Nat.add_sub_cancel]
    have htail : ∀ n ≤ (source.advance run.faces.interval 1).remaining,
        n < run.tail.asked (dice + (run.again budget).toNat + (run.explodes 0).toNat)
          (budget - (run.again budget).toNat) n := by
      intro n hn
      have hlt := hshort (n + 1) (by omega)
      rw [run.asked_succ] at hlt
      exact Nat.lt_of_succ_lt_succ hlt
    obtain ⟨after, hafter⟩ := ih (show run.tail.faces.IsDie from hdie) hs.tail htail hrest
    refine ⟨after, ?_⟩
    rw [rollPending_succ_of_deals hdie hs (by omega), hafter]

/-! ## Groups -/

/-- The flags of the dice rolled up to the end, put by the number of dice that had to be rolled
    again, out of which the budget pays for the first. -/
theorem DiceRun.rerolled_outcome {n i : Nat} (budget : Nat) (hi : i < n) :
    (run.outcome budget i).rerolled =
      (run.matched i && decide (run.matchCount i < min budget (run.matchCount n))) := by
  rw [outcome]
  cases hm : run.matched i with
  | false => rfl
  | true =>
    have hlt : run.matchCount i < run.matchCount n := Nat.count_strict_mono hm hi
    simp only [Nat.lt_min, hlt, and_true]

theorem throwDice_of_rollPending {count : Int} {faces : Faces} {options : Options}
    {outcomes : List Outcome} {after : Source}
    (h : rollPending faces options count.toNat rerollBudget source = (.ok outcomes, after)) :
    throwDice count faces options source = (.ok (Throw.ofOutcomes options outcomes), after) := by
  rw [throwDice, h]

theorem not_throwDice_of_short (hdie : run.faces.IsDie)
    (hs : source.Deals run.faces.interval run.stream) {dice : Nat}
    (hshort : ∀ n ≤ source.remaining, n < run.asked dice rerollBudget n) (throw : Throw)
    (after : Source) :
    throwDice dice run.faces run.options source ≠ (.ok throw, after) := by
  obtain ⟨last, hlast⟩ := rollPending_of_short hdie hs hshort
  rw [throwDice, Int.toNat_natCast, hlast]
  intro h
  cases h

/-- A group of `dice` dice ends its roll exactly if some `n` covers what has been asked for after
    `n` dice. It then makes the least such number of draws, and that number is what was asked for:
    the dice of the group, the first dice that had to be rolled again, up to the budget, and the
    explosions. The dice show the values of the stream in order, and no mark is lost, not even of a
    die that explodes and is rolled again.

    A source answers a limited number of draws, so to end is to end for some limit; every limit that
    allows the least number of draws gives the same throw. -/
theorem throwDice_ends_iff_and_isLeast (hdie : run.faces.IsDie)
    (hs : source.Deals run.faces.interval run.stream) (dice : Nat) :
    ((∃ limit throw after, throwDice dice run.faces run.options (source.withLimit limit) =
        (.ok throw, after)) ↔ ∃ n, run.asked dice rerollBudget n ≤ n) ∧
      ∀ n, IsLeast {n | run.asked dice rerollBudget n ≤ n} n →
        n = dice + min rerollBudget (run.matchCount n) + run.explosionCount n ∧
        ∀ limit, source.drawn.size + n ≤ limit → ∃ throw,
          throwDice dice run.faces run.options (source.withLimit limit) =
            (.ok throw, (source.withLimit limit).advance run.faces.interval n) ∧
          throw.outcomes.map (·.value) = (List.range n).map run.value ∧
          (throw.outcomes.map (·.rerolled) = (List.range n).map fun i =>
            run.matched i && decide (run.matchCount i < min rerollBudget (run.matchCount n))) ∧
          throw.outcomes.map (·.exploded) = (List.range n).map run.explodes := by
  have hends : ∀ n, IsLeast {n | run.asked dice rerollBudget n ≤ n} n → ∀ limit,
      source.drawn.size + n ≤ limit →
        throwDice dice run.faces run.options (source.withLimit limit) =
          (.ok (Throw.ofOutcomes run.options ((List.range n).map (run.outcome rerollBudget))),
            (source.withLimit limit).advance run.faces.interval n) := by
    intro n hn limit hlimit
    have hrem : n ≤ (source.withLimit limit).remaining := Nat.le_sub_of_add_le' hlimit
    exact throwDice_of_rollPending (rollPending_of_isLeast hdie (hs.withLimit limit) hn hrem)
  refine ⟨⟨?_, ?_⟩, ?_⟩
  · -- without an end, a source with any limit is exhausted
    rintro ⟨limit, throw, after, h⟩
    by_contra hnone
    push Not at hnone
    exact not_throwDice_of_short hdie (hs.withLimit limit) (fun n _ => hnone n) throw after h
  · intro hsome
    have hleast : IsLeast {n | run.asked dice rerollBudget n ≤ n} (Nat.find hsome) :=
      ⟨Nat.find_spec hsome, fun _ hn => Nat.find_min' hsome hn⟩
    exact ⟨_, _, _, hends _ hleast _ (Nat.le_refl _)⟩
  · intro n hn
    refine ⟨(run.asked_eq_of_isLeast hn).symm, fun limit hlimit => ⟨_, hends n hn limit hlimit, ?_⟩⟩
    simp only [Throw.ofOutcomes]
    rw [map_markDropped _ (fun _ _ => rfl), map_markDropped _ (fun _ _ => rfl),
      map_markDropped _ (fun _ _ => rfl)]
    simp only [List.map_map]
    refine ⟨rfl, ?_, rfl⟩
    exact List.map_congr_left fun i hi => run.rerolled_outcome rerollBudget (List.mem_range.1 hi)

/-- A die with six faces that explodes and is rolled again on a six, and falls on a six first. -/
def sixThenTwos : DiceRun where
  faces := .number 6
  options := Options.parse ['!', 'r', '6']
  stream i := if i = 0 then 6 else 2

/-- The six asks for two more dice, one to replace it and one for its explosion. -/
theorem throwDice_sixThenTwos :
    IsLeast {n | sixThenTwos.asked 1 rerollBudget n ≤ n} 3 ∧
      ∃ throw after, throwDice (1 : Nat) (.number 6) (Options.parse ['!', 'r', '6'])
          ⟨fun i _ => .ok (sixThenTwos.stream i), 3, #[]⟩ = (.ok throw, after) ∧
        throw.outcomes.map (·.value) = [6, 2, 2] ∧
        throw.outcomes.map (·.rerolled) = [true, false, false] ∧
        throw.outcomes.map (·.exploded) = [true, false, false] := by
  have hdie : sixThenTwos.faces.IsDie := (by decide : (2 : Int) ≤ 6)
  have hs : Source.Deals ⟨fun i _ => .ok (sixThenTwos.stream i), 0, #[]⟩
      sixThenTwos.faces.interval sixThenTwos.stream := by
    intro i
    rw [Array.size_empty, Nat.zero_add]
  have hleast : IsLeast {n | sixThenTwos.asked 1 rerollBudget n ≤ n} 3 := by
    have hzero : sixThenTwos.asked 1 rerollBudget 0 = 1 := by cbv
    have hone : sixThenTwos.asked 1 rerollBudget 1 = 3 := by cbv
    have htwo : sixThenTwos.asked 1 rerollBudget 2 = 3 := by cbv
    have hthree : sixThenTwos.asked 1 rerollBudget 3 = 3 := by cbv
    refine ⟨hthree.le, fun n hn => ?_⟩
    rw [Set.mem_ofPred_eq] at hn
    rcases n with _ | _ | _ | n
    · rw [hzero] at hn
      exact absurd hn (by decide)
    · rw [hone] at hn
      exact absurd hn (by decide)
    · rw [htwo] at hn
      exact absurd hn (by decide)
    · exact Nat.le_add_left 3 n
  obtain ⟨-, hlimit⟩ := (throwDice_ends_iff_and_isLeast hdie hs 1).2 3 hleast
  obtain ⟨throw, hthrow, hvalue, hrerolled, hexploded⟩ := hlimit 3 (Nat.le_refl 3)
  refine ⟨hleast, throw, _, hthrow, ?_, ?_, ?_⟩
  · rw [hvalue]
    cbv
  · rw [hrerolled]
    cbv
  · rw [hexploded]
    cbv

end DiceNotation
