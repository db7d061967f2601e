import DiceNotation.Proofs.Dice.Budget

/-!
# Better dice

Dice of which each is matched by one of other dice that shows no less never have the greater total,
whatever the selection of their group keeps or drops (`Group.roll_total_le`). A single better die can
change which dice count, so that the totals are not compared die by die, but place by place in the
order of value:

* sorting keeps a list below a list that it is below place by place (`forall₂_insertionSort`);
* the total is the sum of a slice of the sorted values (`total_ofOutcomes_eq_sum`), which is cut at
  the same places for equally many dice.

The order of the draws does not matter at all, as sorting undoes it.
-/

namespace DiceNotation

/-! ## Sorting place by place -/

section Sorting

variable {a b : Int} {as bs cs ds : List Int}

theorem orderedInsert_of_forall_le (h : ∀ c ∈ as, a ≤ c) :
    as.orderedInsert (· ≤ ·) a = a :: as := by
  cases as with
  | nil => rfl
  | cons c as => exact List.orderedInsert_cons_of_le _ as (h c List.mem_cons_self)

/-- Of two sorted lists, the one below the other stays there with a lesser integer inserted. -/
theorem forall₂_orderedInsert (has : as.Pairwise (· ≤ ·)) (hbs : bs.Pairwise (· ≤ ·))
    (h : List.Forall₂ (· ≤ ·) as bs) (hab : a ≤ b) :
    List.Forall₂ (· ≤ ·) (as.orderedInsert (· ≤ ·) a) (bs.orderedInsert (· ≤ ·) b) := by
  induction h generalizing a b with
  | nil => exact .cons hab .nil
  | @cons c d as bs hcd hrest ih =>
    obtain ⟨hc, has⟩ := List.pairwise_cons.1 has
    obtain ⟨hd, hbs⟩ := List.pairwise_cons.1 hbs
    rw [List.orderedInsert_cons, List.orderedInsert_cons]
    -- Where only one of the two goes in front, it moves the others along by one place.
    split <;> split
    · exact .cons hab (.cons hcd hrest)
    · rename_i hac hbd
      have hmoved := ih has hbs (Int.le_trans hcd (Int.le_of_not_le hbd))
      rw [orderedInsert_of_forall_le hc] at hmoved
      exact .cons (Int.le_trans hac hcd) hmoved
    · rename_i hac hbd
      have hmoved := ih has hbs (Int.le_trans hab hbd)
      rw [orderedInsert_of_forall_le hd] at hmoved
      exact .cons (Int.le_trans (Int.le_of_not_le hac) hab) hmoved
    · exact .cons hcd (ih has hbs hab)

theorem forall₂_insertionSort (h : List.Forall₂ (· ≤ ·) as bs) :
    List.Forall₂ (· ≤ ·) (as.insertionSort (· ≤ ·)) (bs.insertionSort (· ≤ ·)) := by
  induction h with
  | nil => exact .nil
  | cons hab _ ih =>
    exact forall₂_orderedInsert (List.pairwise_insertionSort _ _) (List.pairwise_insertionSort _ _)
      ih hab

/-- Every integer of the first list is matched by one of the second that is no less. -/
def IsDominated (as bs : List Int) : Prop :=
  ∃ matched, matched.Perm bs ∧ List.Forall₂ (· ≤ ·) as matched

theorem insertionSort_eq_of_perm (h : as.Perm bs) :
    as.insertionSort (· ≤ ·) = bs.insertionSort (· ≤ ·) := by
  have hperm := (List.perm_insertionSort (· ≤ ·) as).trans
    (h.trans (List.perm_insertionSort (· ≤ ·) bs).symm)
  exact hperm.eq_of_pairwise' (List.pairwise_insertionSort _ _) (List.pairwise_insertionSort _ _)

theorem IsDominated.forall₂_insertionSort (h : IsDominated as bs) :
    List.Forall₂ (· ≤ ·) (as.insertionSort (· ≤ ·)) (bs.insertionSort (· ≤ ·)) := by
  obtain ⟨matched, hperm, hle⟩ := h
  rw [← insertionSort_eq_of_perm hperm]
  exact DiceNotation.forall₂_insertionSort hle

end Sorting

/-! ## Totals -/

/-- The values of the pool, in order of rolling. -/
def poolValues (outcomes : List Outcome) : List Int :=
  (outcomes.filter fun o => !o.rerolled).map (·.value)

variable (outcomes : List Outcome) (options : Options)

theorem map_value_poolOf : (poolOf outcomes).map (·.1.value) = poolValues outcomes := by
  conv_rhs => rw [poolValues, ← List.zipIdx_map_fst 0 outcomes, List.filter_map, List.map_map]
  rfl

theorem map_value_rankedPool :
    (rankedPool outcomes).map (·.1.value) = (poolValues outcomes).insertionSort (· ≤ ·) := by
  have hperm : ((rankedPool outcomes).map (·.1.value)).Perm
      ((poolValues outcomes).insertionSort (· ≤ ·)) := by
    rw [← map_value_poolOf]
    exact ((rankedPool_perm outcomes).map _).trans (List.perm_insertionSort _ _).symm
  refine hperm.eq_of_pairwise' ?_ (List.pairwise_insertionSort (· ≤ ·) _)
  rw [List.pairwise_map]
  exact pairwise_value_rankedPool outcomes

theorem length_rankedPool_eq_length_poolValues :
    (rankedPool outcomes).length = (poolValues outcomes).length := by
  rw [length_rankedPool, poolValues, List.length_map]

/-- The total is the sum of a slice of the sorted values. -/
theorem total_ofOutcomes_eq_sum :
    (Throw.ofOutcomes options outcomes).total =
      ((((poolValues outcomes).insertionSort (· ≤ ·)).take
          (options.bounds (poolValues outcomes).length).2).drop
        (options.bounds (poolValues outcomes).length).1).sum := by
  simp only [Throw.ofOutcomes]
  rw [sumOfValues_eq_sum, List.map_drop, List.map_take, map_value_rankedPool,
    length_rankedPool_eq_length_poolValues]

/-- A pool that is matched by another one has no greater total under the same options. -/
theorem total_ofOutcomes_le {others : List Outcome}
    (h : IsDominated (poolValues outcomes) (poolValues others)) :
    (Throw.ofOutcomes options outcomes).total ≤ (Throw.ofOutcomes options others).total := by
  have hsorted := h.forall₂_insertionSort
  have hlength := hsorted.length_eq
  rw [List.length_insertionSort, List.length_insertionSort] at hlength
  rw [total_ofOutcomes_eq_sum, total_ofOutcomes_eq_sum, hlength]
  exact (List.forall₂_drop _ (List.forall₂_take _ hsorted)).sum_le_sum

/-! ## Rolling -/

variable {outcomes options} {faces : Faces} {source other : Source}

/-- From where it stands, the source answers as many draws from the interval as there are integers
in the list, and with these. What it does after them is left open. -/
structure Source.Hands (source : Source) (interval : Interval) (draws : List Int) : Prop where
  length_le : draws.length ≤ source.remaining
  answer : ∀ (i : Nat) (hi : i < draws.length),
    source.answer (source.drawn.size + i) interval = .ok draws[i]

theorem Source.Hands.draw {interval : Interval} {drawn : Int} {draws : List Int}
    (h : source.Hands interval (drawn :: draws)) (hne : interval.low ≤ interval.high) :
    source.draw interval = (.ok drawn, source.advance interval 1) := by
  have hlimit : ¬source.limit ≤ source.drawn.size := by
    have hlength := h.length_le
    rw [List.length_cons, remaining] at hlength
    omega
  have hanswer : source.answer source.drawn.size interval = .ok drawn :=
    h.answer 0 (Nat.zero_lt_succ _)
  rw [Source.draw, if_neg hlimit, if_neg (Int.not_lt.2 hne), hanswer, advance_one]

theorem Source.Hands.tail {interval : Interval} {drawn : Int} {draws : List Int}
    (h : source.Hands interval (drawn :: draws)) :
    (source.advance interval 1).Hands interval draws := by
  constructor
  · have hlength := h.length_le
    rw [List.length_cons] at hlength
    rw [remaining_advance_one]
    omega
  · intro i hi
    rw [advance_one]
    simp only [Array.size_push]
    rw [Nat.add_assoc, Nat.add_comm 1 i]
    exact h.answer (i + 1) (Nat.succ_lt_succ hi)

/-- A script of integers in the interval hands them out. -/
theorem Source.hands_scripted {interval : Interval} (draws : List Int)
    (hlength : draws.length ≤ usualLimit)
    (hrange : ∀ drawn ∈ draws, interval.contains drawn = true) :
    (scripted draws.toArray).Hands interval draws := by
  refine ⟨hlength, fun i hi => ?_⟩
  have hdrawn : draws.toArray[i]? = some draws[i] := by
    rw [List.getElem?_toArray, List.getElem?_eq_getElem hi]
  simp only [scripted, Array.size_empty, Nat.zero_add, hdrawn]
  rw [accept, hrange _ (List.getElem_mem hi), if_pos rfl]

/-- The outcome of a die without marks. -/
def plainOutcome (faces : Faces) (drawn : Int) : Outcome where
  value := faces.shown drawn

theorem outcome_eq_plainOutcome (hcalm : faces.IsCalm options) (hrerolls : options.rerolls = [])
    (drawn : Int) : faces.outcome options drawn = plainOutcome faces drawn := by
  rw [Faces.outcome, hcalm drawn, Options.needsReroll, hrerolls]
  rfl

/-- Without rerolls and explosions there is one draw for each die. -/
theorem rollPending_of_hands (hdie : faces.IsDie) (hcalm : faces.IsCalm options)
    (hrerolls : options.rerolls = []) {draws : List Int} (h : source.Hands faces.interval draws)
    (budget : Nat) :
    rollPending faces options draws.length budget source =
      (.ok (draws.map (plainOutcome faces)), source.advance faces.interval draws.length) := by
  induction draws generalizing source with
  | nil =>
    rw [List.length_nil, rollPending_zero, Source.advance_zero]
    rfl
  | cons drawn draws ih =>
    rw [List.length_cons, rollPending_succ, Faces.roll_eq_drawOutcome hdie, drawOutcome,
      h.draw hdie.interval_le]
    simp only [outcome_eq_plainOutcome hcalm hrerolls, plainOutcome, Bool.false_and,
      Bool.toNat_false, Nat.add_zero, Nat.sub_zero]
    rw [ih h.tail, Source.advance_advance, Nat.add_comm 1]
    rfl

theorem poolValues_map_plainOutcome (faces : Faces) (draws : List Int) :
    poolValues (draws.map (plainOutcome faces)) = draws.map faces.shown := by
  have hall : ∀ o ∈ draws.map (plainOutcome faces), (!o.rerolled) = true :=
    List.forall_mem_map.2 fun _ _ => rfl
  rw [poolValues, List.filter_eq_self.2 hall, List.map_map]
  rfl

/-! ## Groups -/

theorem Faces.shown_mono (faces : Faces) {drawn more : Int} (h : drawn ≤ more) :
    faces.shown drawn ≤ faces.shown more := by
  cases faces with
  | number n => exact h
  | word text => exact Int.sub_le_sub_right h 2

theorem IsDominated.map_shown {as bs : List Int} (h : IsDominated as bs) (faces : Faces) :
    IsDominated (as.map faces.shown) (bs.map faces.shown) := by
  obtain ⟨matched, hperm, hle⟩ := h
  refine ⟨matched.map faces.shown, hperm.map _, ?_⟩
  rw [List.forall₂_map_left_iff, List.forall₂_map_right_iff]
  exact hle.imp fun _ _ => faces.shown_mono

theorem isDominated_ofFn {n : Nat} {a b : Fin n → Int} (p : Equiv.Perm (Fin n))
    (h : ∀ i, a i ≤ b (p i)) : IsDominated (List.ofFn a) (List.ofFn b) := by
  refine ⟨List.ofFn (b ∘ p), p.ofFn_comp_perm b, ?_⟩
  rw [List.forall₂_iff_get]
  refine ⟨by rw [List.length_ofFn, List.length_ofFn], fun i hi _ => ?_⟩
  rw [List.length_ofFn] at hi
  simpa using h ⟨i, hi⟩

namespace Group

variable {group : Group}

/-- The throw of a group whose dice fall as the integers drawn say, without rerolls and
explosions. -/
def throwOf (group : Group) (draws : List Int) : Throw :=
  .ofOutcomes group.options (draws.map (plainOutcome group.faces))

theorem roll_of_hands (hsound : group.IsSound) (hvalid : group.isValid = true)
    (hcalm : group.faces.IsCalm group.options) (hrerolls : group.options.rerolls = [])
    {draws : List Int} (hlength : draws.length = group.dice)
    (h : source.Hands group.faces.interval draws) :
    group.roll source =
      (.ok { group with
          outcomes := (group.throwOf draws).outcomes, total := (group.throwOf draws).total },
        source.advance group.faces.interval group.dice) := by
  have herror : group.error = none := Option.isNone_iff_eq_none.1 hvalid
  have hrolled := rollPending_of_hands hsound.die hcalm hrerolls h rerollBudget
  rw [hlength] at hrolled
  have hthrow : throwDice group.dice group.faces group.options source =
      (.ok (group.throwOf draws), source.advance group.faces.interval group.dice) :=
    throwDice_of_rollPending hrolled
  simp only [roll, herror, rollDice, hthrow]

theorem total_throwOf_le (group : Group) {as bs : List Int} (h : IsDominated as bs) :
    (group.throwOf as).total ≤ (group.throwOf bs).total := by
  refine total_ofOutcomes_le _ _ ?_
  rw [poolValues_map_plainOutcome, poolValues_map_plainOutcome]
  exact h.map_shown group.faces

/-- Better dice never lower the total. An accepted group that neither explodes nor rolls again makes
one draw for each of its dice, and if some pairing of two sets of draws puts none of the first above
its partner of the second, then the total of the first set is not above that of the second. The
order of the draws is nothing to the total: draws that are the same up to their order have the same
total. -/
theorem roll_total_le {count word suffix : Text} (hcreate : create count word suffix = .ok group)
    (hvalid : group.isValid = true)
    (hexploding : group.faces.isSpecial = true ∨ group.options.exploding = false)
    (hrerolls : group.options.rerolls = []) {a b : Fin group.dice → Int}
    (ha : source.Hands group.faces.interval (List.ofFn a))
    (hb : other.Hands group.faces.interval (List.ofFn b)) (p : Equiv.Perm (Fin group.dice))
    (hp : ∀ i, a i ≤ b (p i)) :
    ∃ lower upper : Throw,
      group.roll source =
          (.ok { group with outcomes := lower.outcomes, total := lower.total },
            source.advance group.faces.interval group.dice) ∧
        group.roll other =
          (.ok { group with outcomes := upper.outcomes, total := upper.total },
            other.advance group.faces.interval group.dice) ∧
        lower.total ≤ upper.total ∧ ((∀ i, a i = b (p i)) → lower.total = upper.total) := by
  have hsound := isSound_of_create hcreate hvalid
  have hcalm := Faces.isCalm_of_isSpecial_or hexploding
  refine ⟨group.throwOf (List.ofFn a), group.throwOf (List.ofFn b),
    roll_of_hands hsound hvalid hcalm hrerolls (List.length_ofFn) ha,
    roll_of_hands hsound hvalid hcalm hrerolls (List.length_ofFn) hb,
    group.total_throwOf_le (isDominated_ofFn p hp), fun heq => ?_⟩
  -- Draws that are equal up to their order are below each other.
  have hback : ∀ i, b i ≤ a (p.symm i) := fun i => by
    rw [heq, Equiv.apply_symm_apply]
  exact Int.le_antisymm (group.total_throwOf_le (isDominated_ofFn p hp))
    (group.total_throwOf_le (isDominated_ofFn p.symm hback))

/-- Four dice of which the lowest is dropped. -/
def bestThreeOfFour : Group :=
  .assemble ['4'] ['6'] ['d', '1']

/-- The second draws are better, each of them than the one opposite in the order of rolling. -/
theorem roll_bestThreeOfFour :
    ∃ lower upper : Throw,
      (bestThreeOfFour.roll (.scripted #[3, 1, 6, 2])).1 =
          .ok { bestThreeOfFour with outcomes := lower.outcomes, total := lower.total } ∧
        (bestThreeOfFour.roll (.scripted #[2, 6, 4, 3])).1 =
          .ok { bestThreeOfFour with outcomes := upper.outcomes, total := upper.total } ∧
        lower.total ≤ upper.total ∧
        (bestThreeOfFour.roll (.scripted #[3, 1, 6, 2])).1.map (·.total) = .ok 11 ∧
        (bestThreeOfFour.roll (.scripted #[2, 6, 4, 3])).1.map (·.total) = .ok 13 := by
  have hcreate : create ['4'] ['6'] ['d', '1'] = .ok bestThreeOfFour := by cbv
  have hvalid : bestThreeOfFour.isValid = true := by cbv
  have hexploding : bestThreeOfFour.options.exploding = false := by cbv
  have hrerolls : bestThreeOfFour.options.rerolls = [] := by cbv
  have hinterval : bestThreeOfFour.faces.interval = ⟨1, 6⟩ := by cbv
  have ha : (Source.scripted #[3, 1, 6, 2]).Hands bestThreeOfFour.faces.interval
      (List.ofFn fun i : Fin bestThreeOfFour.dice => [3, 1, 6, 2].getD i 0) := by
    rw [hinterval]
    exact Source.hands_scripted [3, 1, 6, 2] (by decide) (by decide)
  have hb : (Source.scripted #[2, 6, 4, 3]).Hands bestThreeOfFour.faces.interval
      (List.ofFn fun i : Fin bestThreeOfFour.dice => [2, 6, 4, 3].getD i 0) := by
    rw [hinterval]
    exact Source.hands_scripted [2, 6, 4, 3] (by decide) (by decide)
  obtain ⟨lower, upper, hlower, hupper, hle, -⟩ :=
    roll_total_le hcreate hvalid (.inr hexploding) hrerolls ha hb Fin.revPerm (by decide)
  exact ⟨lower, upper, congrArg Prod.fst hlower, congrArg Prod.fst hupper, hle, by cbv, by cbv⟩

end Group

end DiceNotation
