import DiceNotation.Proofs.Dice.Selection
import DiceNotation.Proofs.Dice.Validity

/-!
# The tally of a throw

How many dice a throw has, how many of them count, and what they can sum up to. The selection of a
group is checked against the dice that it asks for, long before its slice is cut out of a pool that
rerolls and explosions have changed. The two agree because of an invariant of rolling: the pool has
one die for every die asked for and one for every explosion, whatever the rerolls
(`poolCount_rollPending`). It therefore never holds fewer dice than were asked for, and the bound at
which the selection cuts it lies within it (`Selection.cut_mem`).

The numbers of a throw are gathered in `Throw.IsTallied`, and the throws of valid groups have them
(`Group.roll_isTallied`) if the source answers in range (`Source.StaysInRange`).
-/

namespace DiceNotation

variable {source after : Source} {faces : Faces} {options : Options}

/-! ## Values in range -/

/-- An integer that the source answers lies in the interval drawn from. Draws may be refused. -/
def Source.StaysInRange (source : Source) : Prop :=
  ∀ (i : Nat) (interval : Interval) (value : Int), interval.low ≤ interval.high →
    source.answer i interval = .ok value → interval.contains value = true

namespace Source

theorem contains_of_accept {interval : Interval} {value n : Int}
    (h : accept interval n = .ok value) : interval.contains value = true := by
  rw [accept] at h
  split at h
  · cases h
    assumption
  · cases h

theorem staysInRange_scripted (script : Array Int) : (scripted script).StaysInRange := by
  intro i interval value _ h
  rw [scripted] at h
  dsimp only at h
  split at h
  · exact contains_of_accept h
  · cases h

theorem staysInRange_cyclic (script : Array Int) : (cyclic script).StaysInRange := by
  intro i interval value _ h
  rw [cyclic] at h
  dsimp only at h
  split at h
  · exact contains_of_accept h
  · cases h

theorem staysInRange_generated (seed : Int) : (generated seed).StaysInRange := by
  intro i interval value hne h
  cases h
  have hpos : 0 < interval.high - interval.low + 1 := by omega
  rw [Interval.contains, Bool.and_eq_true, decide_eq_true_eq, decide_eq_true_eq]
  refine ⟨?_, ?_⟩
  · exact Int.le_add_of_nonneg_right (Int.emod_nonneg _ hpos.ne')
  · have hlt := Int.emod_lt_of_pos (((generatorStep.iterate (i + 1)).apply (UInt64.ofInt seed)) >>>
      33).toNat hpos
    omega

/-- In range as the source is, it stays so behind a draw. -/
theorem StaysInRange.of_draw {interval : Interval} {value : Int} (hs : source.StaysInRange)
    (h : source.draw interval = (.ok value, after)) :
    interval.contains value = true ∧ after.StaysInRange := by
  rw [draw] at h
  obtain ⟨hanswer, rfl⟩ := Prod.ext_iff.1 h
  refine ⟨?_, hs⟩
  dsimp only at hanswer
  split at hanswer
  · cases hanswer
  · split at hanswer
    · cases hanswer
    · rename_i hne
      exact hs _ _ _ (Int.le_of_not_gt hne) hanswer

end Source

namespace Faces

/-- The least value that the die shows. -/
def least : Faces → Int
  | .number _ => 1
  | .word _ => -1

/-- The greatest value that the die shows. -/
def greatest : Faces → Int
  | .number n => n
  | .word _ => 1

theorem shown_mem {drawn : Int} (h : faces.interval.contains drawn = true) :
    faces.least ≤ faces.shown drawn ∧ faces.shown drawn ≤ faces.greatest := by
  rw [Interval.contains, Bool.and_eq_true, decide_eq_true_eq, decide_eq_true_eq] at h
  cases faces with
  | number n => exact h
  | word text =>
    simp only [interval, least, greatest, shown] at h ⊢
    omega

theorem IsDie.value_of_roll (hdie : faces.IsDie) (hs : source.StaysInRange) {outcome : Outcome}
    (h : faces.roll options source = (.ok outcome, after)) :
    (faces.least ≤ outcome.value ∧ outcome.value ≤ faces.greatest) ∧ after.StaysInRange := by
  rw [roll_eq_drawOutcome hdie, drawOutcome] at h
  split at h
  · rename_i drawn later hdraw
    cases h
    obtain ⟨hcontains, hlater⟩ := hs.of_draw hdraw
    exact ⟨shown_mem hcontains, hlater⟩
  · cases h

/-- Every die that is rolled shows one of its faces. -/
theorem IsDie.value_of_rollPending (hdie : faces.IsDie) (hs : source.StaysInRange)
    (pending budget : Nat) :
    ∀ outcomes, rollPending faces options pending budget source = (.ok outcomes, after) →
      ∀ value ∈ outcomes.map (·.value), faces.least ≤ value ∧ value ≤ faces.greatest := by
  fun_induction rollPending faces options pending budget source with
  | case1 =>
    rintro _ ⟨⟩
    exact List.forall_mem_nil _
  | case2 => rintro _ ⟨⟩
  | case3 => rintro _ ⟨⟩
  | case4 budget source pending outcome after hroll again pending' more last hrest ih =>
    rintro _ ⟨⟩
    obtain ⟨hfirst, hafter⟩ := hdie.value_of_roll hs hroll
    exact List.forall_mem_cons.2 ⟨hfirst, ih hafter _ hrest⟩

end Faces

/-! ## How many dice there are -/

/-- How many of the outcomes belong to the pool: those that were not rolled again. -/
def poolCount (outcomes : List Outcome) : Nat :=
  outcomes.countP fun o => !o.rerolled

/-- How many of the outcomes exploded. -/
def explodedCount (outcomes : List Outcome) : Nat :=
  outcomes.countP (·.exploded)

/-- How many of the outcomes count: those that were neither rolled again nor dropped. -/
def standingCount (outcomes : List Outcome) : Nat :=
  outcomes.countP fun o => !o.rerolled && !o.dropped

/-- What rolling keeps up: every pending die and every explosion brings one die into the pool. A
    reroll brings none, as it leaves the pool and adds a pending die. -/
theorem poolCount_rollPending (pending budget : Nat) :
    ∀ outcomes, rollPending faces options pending budget source = (.ok outcomes, after) →
      poolCount outcomes = pending + explodedCount outcomes := by
  fun_induction rollPending faces options pending budget source with
  | case1 =>
    rintro _ ⟨⟩
    rfl
  | case2 => rintro _ ⟨⟩
  | case3 => rintro _ ⟨⟩
  | case4 budget source pending outcome after hroll again pending' more last hrest ih =>
    rintro _ ⟨⟩
    have hmore : poolCount more = pending + again.toNat + outcome.exploded.toNat +
        explodedCount more := ih _ hrest
    rw [poolCount, explodedCount] at hmore ⊢
    rw [List.countP_cons, List.countP_cons, hmore]
    cases again <;> cases outcome.exploded <;> simp <;> omega

theorem countP_markDropped (p : Outcome → Bool)
    (hp : ∀ (outcome : Outcome) (dropped : Bool), p { outcome with dropped := dropped } = p outcome)
    (positions : List Nat) (outcomes : List Outcome) :
    (markDropped positions outcomes).countP p = outcomes.countP p := by
  have hmap := congrArg (List.countP id) (map_markDropped p hp positions outcomes)
  rwa [List.countP_map, List.countP_map] at hmap

/-! ## How many dice count -/

/-- A pool that holds the dice that are selected is not cut beyond its ends. -/
theorem Selection.cut_mem {selection : Selection} {size : Nat} (h : selection.count ≤ size) :
    0 ≤ selection.cut size ∧ selection.cut size ≤ size := by
  rcases selection with ⟨side, count, _⟩ | ⟨side, count, _⟩ <;> cases side <;>
    simp only [Selection.count, cut] at h ⊢ <;> omega

/-- As many dice count as the selection keeps, or all that it does not drop. -/
theorem standingCount_ofOutcomes {outcomes : List Outcome}
    (h : ∀ selection, options.selection = some selection →
      selection.count ≤ (rankedPool outcomes).length) :
    standingCount (Throw.ofOutcomes options outcomes).outcomes =
      match options.selection with
      | some (.keep _ count _) => count
      | some (.drop _ count _) => (rankedPool outcomes).length - count
      | none => (rankedPool outcomes).length := by
  rcases hbounds : options.bounds (rankedPool outcomes).length with ⟨start, stop⟩
  have hslice := (standing_perm_slice outcomes options hbounds).length_eq
  rw [List.length_map, List.length_map, List.length_drop, List.length_take] at hslice
  rw [standingCount, List.countP_eq_length_filter, hslice]
  rw [Options.bounds] at hbounds
  cases hselection : options.selection with
  | none =>
    rw [hselection] at hbounds
    cases hbounds
    rw [Nat.min_self, Nat.sub_zero]
  | some selection =>
    have hcount := h selection hselection
    rw [hselection] at hbounds
    simp only [Selection.bounds_eq hcount] at hbounds
    rcases selection with ⟨side, count, _⟩ | ⟨side, count, _⟩ <;> cases side <;> cases hbounds <;>
      simp only [Selection.count] at hcount ⊢ <;> omega

/-- The numbers of a throw that asked for `dice` dice. -/
structure Throw.IsTallied (throw : Throw) (dice : Nat) (faces : Faces) (options : Options) :
    Prop where
  /-- The pool holds the dice that were asked for and one more for every explosion. -/
  pool : poolCount throw.outcomes = dice + explodedCount throw.outcomes
  /-- Of the pool, as many dice count as are kept, or all but those that are dropped. -/
  standing :
    match options.selection with
    | some (.keep _ count _) => standingCount throw.outcomes = count
    | some (.drop _ count _) =>
      standingCount throw.outcomes + count = dice + explodedCount throw.outcomes ∧
        1 ≤ standingCount throw.outcomes
    | none => standingCount throw.outcomes = dice + explodedCount throw.outcomes
  /-- The pool is cut within its ends. -/
  cut : ∀ selection, options.selection = some selection →
    0 ≤ selection.cut (poolCount throw.outcomes) ∧
      selection.cut (poolCount throw.outcomes) ≤ poolCount throw.outcomes
  /-- The total is one that the dice that count can show. -/
  total : standingCount throw.outcomes * faces.least ≤ throw.total ∧
    throw.total ≤ standingCount throw.outcomes * faces.greatest

/-- The total of dice that show values of the faces lies between those of the least and of the
    greatest ones. -/
theorem total_mem_of_values {outcomes : List Outcome}
    (hvalues : ∀ value ∈ outcomes.map (·.value), faces.least ≤ value ∧ value ≤ faces.greatest) :
    standingCount (Throw.ofOutcomes options outcomes).outcomes * faces.least ≤
        (Throw.ofOutcomes options outcomes).total ∧
      (Throw.ofOutcomes options outcomes).total ≤
        standingCount (Throw.ofOutcomes options outcomes).outcomes * faces.greatest := by
  have hsame : (Throw.ofOutcomes options outcomes).outcomes.map (·.value) =
      outcomes.map (·.value) := map_markDropped _ (fun _ _ => rfl) _ _
  rw [← hsame] at hvalues
  rw [total_ofOutcomes, standingCount, List.countP_eq_length_filter,
    ← List.length_map (f := fun o : Outcome => o.value)]
  generalize hstanding : ((Throw.ofOutcomes options outcomes).outcomes.filter fun o =>
    !o.rerolled && !o.dropped).map (·.value) = values
  have hmem : ∀ value ∈ values, faces.least ≤ value ∧ value ≤ faces.greatest := by
    intro value hvalue
    rw [← hstanding] at hvalue
    exact hvalues value ((List.filter_sublist.map _).subset hvalue)
  have hleast := values.card_nsmul_le_sum faces.least fun value h => (hmem value h).1
  have hgreatest := values.sum_le_card_nsmul faces.greatest fun value h => (hmem value h).2
  rw [nsmul_eq_mul] at hleast hgreatest
  exact ⟨hleast, hgreatest⟩

/-- What validation is for: whatever the dice show, the throw of a sound group is tallied. -/
theorem Group.IsSound.isTallied {group : Group} (hsound : group.IsSound)
    (hs : source.StaysInRange) {throw : Throw}
    (h : throwDice group.dice group.faces group.options source = (.ok throw, after)) :
    throw.IsTallied group.dice group.faces group.options := by
  rw [throwDice, Int.toNat_natCast] at h
  split at h
  · cases h
  · rename_i outcomes last hrolled
    cases h
    have hrolledPool : poolCount outcomes = group.dice + explodedCount outcomes :=
      poolCount_rollPending _ _ _ hrolled
    have hpool : poolCount (Throw.ofOutcomes group.options outcomes).outcomes =
        poolCount outcomes := countP_markDropped _ (fun _ _ => rfl) _ _
    have hexploded : explodedCount (Throw.ofOutcomes group.options outcomes).outcomes =
        explodedCount outcomes := countP_markDropped _ (fun _ _ => rfl) _ _
    have hlength : (rankedPool outcomes).length = poolCount outcomes := by
      rw [length_rankedPool, poolCount, List.countP_eq_length_filter]
    -- The pool is never smaller than what was asked for.
    have hcount : ∀ selection, group.options.selection = some selection →
        selection.count ≤ poolCount outcomes := by
      rintro (⟨side, count, hpos⟩ | ⟨side, count, hpos⟩) hselection
      · have hkeep := hsound.keep
        rw [Options.kept_of_selection hselection] at hkeep
        rw [hrolledPool]
        exact Nat.le_add_right_of_le hkeep
      · have hdrop := hsound.drop
        rw [Options.dropped_of_selection hselection] at hdrop
        rw [hrolledPool]
        exact Nat.le_add_right_of_le hdrop.le
    refine ⟨?_, ?_, ?_, total_mem_of_values (hsound.die.value_of_rollPending hs _ _ _ hrolled)⟩
    · rw [hpool, hexploded, hrolledPool]
    · have hstanding := standingCount_ofOutcomes (hlength ▸ hcount)
      rw [hlength, hrolledPool] at hstanding
      rw [hexploded]
      split <;> rename_i hselection <;> rw [hselection] at hstanding
      · exact hstanding
      · have hdrop := hsound.drop
        rw [Options.dropped_of_selection hselection] at hdrop
        dsimp only at hstanding
        omega
      · exact hstanding
    · rw [hpool]
      exact fun selection hselection => Selection.cut_mem (hcount selection hselection)

/-- If the source answers in range and refuses no draw, an accepted group is rolled, and its throw
    is tallied. -/
theorem Group.roll_isTallied {count word suffix : Text} {group : Group}
    (hcreate : create count word suffix = .ok group) (hvalid : group.isValid = true)
    (hs : source.StaysInRange)
    (hends : ∀ refusal, (group.roll source).1 ≠ .error (.roll (.draw refusal))) :
    ∃ (throw : Throw) (after : Source),
      group.roll source =
          (.ok { group with outcomes := throw.outcomes, total := throw.total }, after) ∧
        throw.IsTallied group.dice group.faces group.options := by
  have hsound := isSound_of_create hcreate hvalid
  have herror : group.error = none := Option.isNone_iff_eq_none.1 hvalid
  rcases hthrow : throwDice group.dice group.faces group.options source with ⟨e | throw, after⟩
  · obtain ⟨refusal, rfl⟩ := hsound.die.error_of_throwDice hthrow
    refine absurd ?_ (hends refusal)
    simp only [roll, herror, rollDice, hthrow]
  · refine ⟨throw, after, ?_, hsound.isTallied hs hthrow⟩
    simp only [roll, herror, rollDice, hthrow]

/-- Three dice that explode and are rolled again on a one, of which the two lowest are dropped. -/
def droppingGroup : Group :=
  .assemble ['3'] ['6'] ['!', 'r', '1', 'd', '2']

/-- A six explodes, so that four dice are in the pool and two of them count. -/
theorem roll_droppingGroup :
    ∃ (throw : Throw) (after : Source),
      droppingGroup.roll (.scripted #[6, 1, 3, 3, 2]) =
          (.ok { droppingGroup with outcomes := throw.outcomes, total := throw.total }, after) ∧
        throw.IsTallied 3 (.number 6) droppingGroup.options ∧ throw.total = 9 := by
  have hcreate : Group.create ['3'] ['6'] ['!', 'r', '1', 'd', '2'] = .ok droppingGroup := by cbv
  have hvalid : droppingGroup.isValid = true := by cbv
  have htotal : (droppingGroup.roll (.scripted #[6, 1, 3, 3, 2])).1.map (·.total) = .ok 9 := by cbv
  have hends : ∀ refusal,
      (droppingGroup.roll (.scripted #[6, 1, 3, 3, 2])).1 ≠ .error (.roll (.draw refusal)) := by
    intro refusal hrefused
    rw [hrefused] at htotal
    cases htotal
  obtain ⟨throw, after, hroll, htallied⟩ :=
    Group.roll_isTallied hcreate hvalid (Source.staysInRange_scripted _) hends
  rw [hroll] at htotal
  exact ⟨throw, after, hroll, htallied, Except.ok.inj htotal⟩

end DiceNotation
