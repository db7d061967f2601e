import DiceNotation.Dice.Pool
import Mathlib

/-!
# Which dice count

The selection of a group works on its pool, the dice that were not rolled again, in order of value,
with the earlier die first of two equals. Such an order of positions is a *ranking* of the outcomes
(`IsRanking`); there is exactly one, and `rankedPool` finds it (`isRanking_rankedPool`), since
sorting is stable: the dice of one value keep their order (`filter_value_rankedPool`).

The slice that counts is then cut at one end of the ranking (`selectedBy_ofOutcomes`), and its sum
is the sum over the dice left standing (`total_ofOutcomes`). Both go back to the pool cut into three
parts, of which the middle one counts, with no position in two of them.
-/

namespace DiceNotation

/-! ## Rankings -/

/-- The value of the outcome at a position. -/
def valueAt (outcomes : List Outcome) (i : Nat) : Int :=
  (outcomes.map (·.value)).getD i 0

/-- The outcome at the position `i` comes before the one at `j` in order of value, and in order of
    rolling if both show the same. -/
def Precedes (outcomes : List Outcome) (i j : Nat) : Prop :=
  valueAt outcomes i < valueAt outcomes j ∨ valueAt outcomes i = valueAt outcomes j ∧ i < j

/-- The list `order` holds the positions of the outcomes that were not rolled again, in order of
    value and of rolling. -/
structure IsRanking (outcomes : List Outcome) (order : List Nat) : Prop where
  mem_iff : ∀ i, i ∈ order ↔ (outcomes.map (·.rerolled))[i]? = some false
  pairwise : order.Pairwise (Precedes outcomes)

theorem IsRanking.nodup {outcomes : List Outcome} {order : List Nat}
    (h : IsRanking outcomes order) : order.Nodup := by
  refine h.pairwise.imp fun hij => ?_
  rintro rfl
  rcases hij with hlt | ⟨-, hlt⟩
  · exact Int.lt_irrefl _ hlt
  · exact Nat.lt_irrefl _ hlt

/-- No two lists rank the same outcomes. -/
theorem IsRanking.eq {outcomes : List Outcome} {order other : List Nat}
    (h : IsRanking outcomes order) (h' : IsRanking outcomes other) : other = order := by
  have hperm : other.Perm order := by
    rw [List.perm_ext_iff_of_nodup h'.nodup h.nodup]
    intro i
    rw [h'.mem_iff, h.mem_iff]
  refine hperm.eq_of_pairwise (fun i j _ _ hij hji => ?_) h'.pairwise h.pairwise
  rcases hij with hlt | ⟨heq, hlt⟩
  · rcases hji with hgt | ⟨heq, -⟩
    · exact absurd hlt (Int.lt_asymm hgt)
    · exact absurd heq.symm (Int.ne_of_lt hlt)
  · rcases hji with hgt | ⟨-, hgt⟩
    · exact absurd heq.symm (Int.ne_of_lt hgt)
    · exact absurd hlt (Nat.lt_asymm hgt)

variable (outcomes : List Outcome)

theorem mem_poolOf {outcomes : List Outcome} {member : Outcome × Nat} :
    member ∈ poolOf outcomes ↔ outcomes[member.2]? = some member.1 ∧ member.1.rerolled = false := by
  rw [poolOf, List.mem_filter, List.mem_zipIdx_iff_getElem?, Bool.not_eq_true']

/-- The pool is in order of rolling. -/
theorem pairwise_poolOf : (poolOf outcomes).Pairwise fun a b => a.2 < b.2 := by
  have hpositions : (outcomes.zipIdx.map Prod.snd).Pairwise (· < ·) := by
    rw [List.zipIdx_map_snd]
    exact List.pairwise_lt_range'
  exact (List.pairwise_map.1 hpositions).filter _

theorem rankedPool_perm : (rankedPool outcomes).Perm (poolOf outcomes) :=
  List.mergeSort_perm _ _

theorem value_le_trans (a b c : Outcome × Nat) (hab : decide (a.1.value ≤ b.1.value) = true)
    (hbc : decide (b.1.value ≤ c.1.value) = true) : decide (a.1.value ≤ c.1.value) = true :=
  decide_eq_true (Int.le_trans (of_decide_eq_true hab) (of_decide_eq_true hbc))

theorem value_le_total (a b : Outcome × Nat) :
    (decide (a.1.value ≤ b.1.value) || decide (b.1.value ≤ a.1.value)) = true := by
  rw [Bool.or_eq_true, decide_eq_true_eq, decide_eq_true_eq]
  exact Int.le_total _ _

theorem pairwise_value_rankedPool :
    (rankedPool outcomes).Pairwise fun a b => a.1.value ≤ b.1.value :=
  (List.pairwise_mergeSort value_le_trans value_le_total _).imp of_decide_eq_true

/-- Sorting is stable: the dice of one value are ranked in the order of rolling. -/
theorem filter_value_rankedPool (value : Int) :
    (rankedPool outcomes).filter (·.1.value == value) =
      (poolOf outcomes).filter (·.1.value == value) := by
  have hequal : ((poolOf outcomes).filter (·.1.value == value)).Pairwise fun a b =>
      decide (a.1.value ≤ b.1.value) = true := by
    refine List.pairwise_of_forall_mem_list fun a ha b hb => ?_
    have hva := eq_of_beq (List.mem_filter.1 ha).2
    have hvb := eq_of_beq (List.mem_filter.1 hb).2
    exact decide_eq_true (Int.le_of_eq (hva.trans hvb.symm))
  have hsub : ((poolOf outcomes).filter (·.1.value == value)).Sublist (rankedPool outcomes) :=
    List.sublist_mergeSort value_le_trans value_le_total hequal List.filter_sublist
  -- A sublist that is as long as the list is all of it.
  have hsub' := hsub.filter (·.1.value == value)
  rw [List.filter_filter] at hsub'
  simp only [Bool.and_self] at hsub'
  exact (hsub'.eq_of_length ((rankedPool_perm outcomes).filter _).length_eq.symm).symm

theorem valueAt_of_mem_rankedPool {outcomes : List Outcome} {member : Outcome × Nat}
    (h : member ∈ rankedPool outcomes) : valueAt outcomes member.2 = member.1.value := by
  have hmem := (mem_poolOf.1 ((rankedPool_perm outcomes).mem_iff.1 h)).1
  rw [valueAt, List.getD_eq_getElem?_getD, List.getElem?_map, hmem]
  rfl

/-- The positions of the ranked pool are a ranking. -/
theorem isRanking_rankedPool : IsRanking outcomes ((rankedPool outcomes).map Prod.snd) := by
  constructor
  · intro i
    rw [((rankedPool_perm outcomes).map Prod.snd).mem_iff, List.mem_map, List.getElem?_map,
      Option.map_eq_some_iff]
    constructor
    · rintro ⟨member, hmem, rfl⟩
      exact ⟨member.1, mem_poolOf.1 hmem⟩
    · rintro ⟨outcome, hmem⟩
      exact ⟨(outcome, i), mem_poolOf.2 hmem, rfl⟩
  · rw [List.pairwise_map]
    refine List.pairwise_of_forall_sublist fun {a b} hab => ?_
    have hle := List.pairwise_iff_forall_sublist.1 (pairwise_value_rankedPool outcomes) hab
    rw [Precedes, valueAt_of_mem_rankedPool (hab.subset List.mem_cons_self),
      valueAt_of_mem_rankedPool (hab.subset (List.mem_cons_of_mem _ List.mem_cons_self))]
    rcases Int.lt_or_eq_of_le hle with hlt | heq
    · exact .inl hlt
    · -- equals are found in the pool in the same order
      have hsub := hab.filter (·.1.value == b.1.value)
      rw [filter_value_rankedPool, List.filter_cons_of_pos (by simp [heq]),
        List.filter_cons_of_pos (by simp)] at hsub
      exact .inr ⟨heq, List.pairwise_iff_forall_sublist.1 (pairwise_poolOf outcomes)
        (hsub.trans List.filter_sublist)⟩

/-! ## The slice that counts -/

/-- The outcome at a position is marked as dropped. -/
def IsDropped (outcomes : List Outcome) (i : Nat) : Prop :=
  (outcomes.map (·.dropped))[i]? = some true

theorem Options.kept_of_selection {options : Options} {side : Side} {count : Nat} {hpos : 0 < count}
    (h : options.selection = some (.keep side count hpos)) : options.kept = count := by
  rw [selection] at h
  split at h
  · cases h
  · split at h
    · cases h
      rfl
    · cases h

theorem Options.dropped_of_selection {options : Options} {side : Side} {count : Nat}
    {hpos : 0 < count} (h : options.selection = some (.drop side count hpos)) :
    options.dropped = count := by
  rw [selection] at h
  split at h
  · cases h
    rfl
  · split at h <;> cases h

/-- How many dice a selection keeps or drops. -/
def Selection.count : Selection → Nat
  | .keep _ count _ | .drop _ count _ => count

/-- The marks of the outcomes are those that a selection asks for in the ranking `order`: exactly
    the dice at the named end are left standing, or dropped. -/
def SelectedBy (outcomes : List Outcome) (order : List Nat) : Option Selection → Prop
  | some (.keep .high count _) => ∀ i, i ∈ order ∧ ¬IsDropped outcomes i ↔ i ∈ order.rtake count
  | some (.keep .low count _) => ∀ i, i ∈ order ∧ ¬IsDropped outcomes i ↔ i ∈ order.take count
  | some (.drop .high count _) => ∀ i, IsDropped outcomes i ↔ i ∈ order.rtake count
  | some (.drop .low count _) => ∀ i, IsDropped outcomes i ↔ i ∈ order.take count
  | none => ∀ i, ¬IsDropped outcomes i

theorem sliceBound_le (size : Nat) (bound : Int) : sliceBound size bound ≤ size :=
  Nat.min_le_left _ _

theorem sliceBound_natCast {size count : Nat} (h : count ≤ size) :
    sliceBound size (count : Int) = count := by
  rw [sliceBound, if_neg (Int.not_lt.2 (Int.natCast_nonneg count)), Int.toNat_natCast]
  exact Nat.min_eq_right h

theorem sliceBound_sub {size count : Nat} (h : count ≤ size) :
    sliceBound size ((size : Int) - count) = size - count := by
  rw [← Int.ofNat_sub h]
  exact sliceBound_natCast (Nat.sub_le size count)

/-- The slice of a pool that holds as many dice as are selected. -/
theorem Selection.bounds_eq {selection : Selection} {size : Nat} (h : selection.count ≤ size) :
    selection.bounds size =
      match selection with
      | .keep .high count _ => (size - count, size)
      | .keep .low count _ => (0, count)
      | .drop .high count _ => (0, size - count)
      | .drop .low count _ => (count, size) := by
  rcases selection with ⟨side, count, _⟩ | ⟨side, count, _⟩ <;> cases side
  · exact Prod.ext (sliceBound_sub h) rfl
  · exact Prod.ext rfl (sliceBound_natCast h)
  · exact Prod.ext rfl (sliceBound_sub h)
  · exact Prod.ext (sliceBound_natCast h) rfl

/-- A slice does not end before it begins. -/
theorem Options.bounds_le (options : Options) (size : Nat) :
    (options.bounds size).1 ≤ (options.bounds size).2 := by
  rw [Options.bounds]
  split
  · rename_i selection _
    rcases selection with ⟨side, count, _⟩ | ⟨side, count, _⟩ <;> cases side
    · exact sliceBound_le _ _
    · exact Nat.zero_le _
    · exact Nat.zero_le _
    · exact sliceBound_le _ _
  · exact Nat.zero_le _

theorem isDropped_markDropped {outcomes : List Outcome} {positions : List Nat} {i : Nat} :
    IsDropped (markDropped positions outcomes) i ↔ i < outcomes.length ∧ i ∈ positions := by
  rw [IsDropped, markDropped, List.map_map, List.getElem?_map, List.getElem?_zipIdx]
  by_cases hi : i < outcomes.length
  · rw [List.getElem?_eq_getElem hi]
    simp [hi]
  · rw [List.getElem?_eq_none (Nat.le_of_not_lt hi)]
    simp [hi]

/-- What is marked as dropped is what lies outside the slice. -/
theorem isDropped_ofOutcomes (options : Options) {order : List Nat}
    (horder : order = (rankedPool outcomes).map Prod.snd) (i : Nat) :
    IsDropped (Throw.ofOutcomes options outcomes).outcomes i ↔
      i ∈ order.take (options.bounds order.length).1 ∨
        i ∈ order.drop (options.bounds order.length).2 := by
  have hrange : i ∈ order → i < outcomes.length := by
    intro hi
    have hsome := ((isRanking_rankedPool outcomes).mem_iff i).1 (horder ▸ hi)
    obtain ⟨hlt, -⟩ := List.getElem?_eq_some_iff.1 hsome
    rwa [List.length_map] at hlt
  have hpositions : ∀ start stop,
      ((rankedPool outcomes).take start ++ (rankedPool outcomes).drop stop).map Prod.snd =
        order.take start ++ order.drop stop := by
    intro start stop
    rw [List.map_append, List.map_take, List.map_drop, horder]
  have hlength : (rankedPool outcomes).length = order.length := by
    rw [horder, List.length_map]
  simp only [Throw.ofOutcomes]
  rw [isDropped_markDropped, hlength, hpositions, List.mem_append]
  constructor
  · exact And.right
  · intro hi
    exact ⟨hrange (hi.elim List.mem_of_mem_take List.mem_of_mem_drop), hi⟩

theorem mem_take_iff {order : List Nat} (h : order.Nodup) (i n : Nat) :
    i ∈ order.take n ↔ i ∈ order ∧ i ∉ order.drop n := by
  have hdisjoint := List.disjoint_take_drop h (Nat.le_refl n)
  constructor
  · intro hi
    exact ⟨List.mem_of_mem_take hi, fun hdrop => hdisjoint hi hdrop⟩
  · rintro ⟨hi, hdrop⟩
    rw [← List.take_append_drop n order, List.mem_append] at hi
    exact hi.resolve_right hdrop

theorem mem_drop_iff {order : List Nat} (h : order.Nodup) (i n : Nat) :
    i ∈ order.drop n ↔ i ∈ order ∧ i ∉ order.take n := by
  have hdisjoint := List.disjoint_take_drop h (Nat.le_refl n)
  constructor
  · intro hi
    exact ⟨List.mem_of_mem_drop hi, fun htake => hdisjoint htake hi⟩
  · rintro ⟨hi, htake⟩
    rw [← List.take_append_drop n order, List.mem_append] at hi
    exact hi.resolve_left htake

/-- If the pool holds as many dice as are selected, the marks are those that the selection asks
    for. -/
theorem selectedBy_ofOutcomes (options : Options)
    (h : ∀ selection, options.selection = some selection →
      selection.count ≤ (rankedPool outcomes).length) :
    SelectedBy (Throw.ofOutcomes options outcomes).outcomes ((rankedPool outcomes).map Prod.snd)
      options.selection := by
  have hnodup := (isRanking_rankedPool outcomes).nodup
  have hdropped := isDropped_ofOutcomes outcomes options rfl
  rw [← List.length_map Prod.snd] at h
  revert h hnodup hdropped
  generalize (rankedPool outcomes).map Prod.snd = order
  intro h hnodup hdropped
  cases hselection : options.selection with
  | none =>
    intro i
    rw [hdropped, Options.bounds, hselection, List.take_zero, List.drop_length]
    exact fun hi => hi.elim List.not_mem_nil List.not_mem_nil
  | some selection =>
    simp only [Options.bounds, hselection, Selection.bounds_eq (h selection hselection)] at hdropped
    -- One bound cuts off the selected end, and the other one leaves everything.
    rcases selection with ⟨side, count, _⟩ | ⟨side, count, _⟩ <;> cases side <;> intro i <;>
      simp only [hdropped, List.take_zero, List.drop_length, List.not_mem_nil, false_or, or_false]
    · exact (mem_drop_iff hnodup i _).symm
    · exact (mem_take_iff hnodup i count).symm
    · exact Iff.rfl

/-! ## The total -/

/-- Of a list in three parts, the middle one is what is left without the positions of the others. -/
theorem filter_middle {a b c : List (Outcome × Nat)}
    (h : ((a ++ (b ++ c)).map Prod.snd).Nodup) :
    (a ++ (b ++ c)).filter (fun member => !((a ++ c).map Prod.snd).contains member.2) = b := by
  rw [List.map_append, List.map_append, List.nodup_append', List.nodup_append',
    List.disjoint_append_right] at h
  obtain ⟨-, ⟨-, -, hbc⟩, hab, -⟩ := h
  have hout : ∀ l : List (Outcome × Nat), (∀ member ∈ l, member ∈ a ++ c) →
      l.filter (fun member => !((a ++ c).map Prod.snd).contains member.2) = [] := by
    intro l hl
    refine List.filter_eq_nil_iff.2 fun member hmember => ?_
    simp only [List.contains_iff_mem, Bool.not_eq_true', Bool.not_eq_false]
    exact List.mem_map_of_mem (hl member hmember)
  have hin : b.filter (fun member => !((a ++ c).map Prod.snd).contains member.2) = b := by
    refine List.filter_eq_self.2 fun member hmember => ?_
    have hb : member.2 ∈ b.map Prod.snd := List.mem_map_of_mem hmember
    rw [Bool.not_eq_true', ← Bool.not_eq_true, List.contains_iff_mem, List.map_append,
      List.mem_append]
    exact fun hac => hac.elim (fun ha => hab ha hb) (fun hc => hbc hb hc)
  rw [List.filter_append, List.filter_append, hin, hout a fun _ => List.mem_append_left c,
    hout c fun _ => List.mem_append_right a, List.nil_append, List.append_nil]

/-- The dice left standing are the members of the pool whose positions were not marked. -/
theorem map_value_filter_markDropped (positions : List Nat) :
    ((markDropped positions outcomes).filter fun o => !o.rerolled && !o.dropped).map (·.value) =
      ((poolOf outcomes).filter fun member => !positions.contains member.2).map (·.1.value) := by
  rw [markDropped, poolOf, List.filter_map, List.map_map, List.filter_filter]
  refine congrArg (List.map _) (List.filter_congr fun member _ => ?_)
  exact Bool.and_comm _ _

theorem sumOfValues_eq_sum (members : List (Outcome × Nat)) :
    sumOfValues members = (members.map (·.1.value)).sum := by
  induction members with
  | nil => rfl
  | cons member members ih =>
    rw [List.map_cons, List.sum_cons, ← ih]
    rfl

/-- The dice left standing show the values of the slice that counts. -/
theorem standing_perm_slice (options : Options) {start stop : Nat}
    (hbounds : options.bounds (rankedPool outcomes).length = (start, stop)) :
    (((Throw.ofOutcomes options outcomes).outcomes.filter fun o =>
        !o.rerolled && !o.dropped).map (·.value)).Perm
      ((((rankedPool outcomes).take stop).drop start).map (·.1.value)) := by
  -- The slice that counts is the middle one of three parts of the ranked pool.
  have hle : start ≤ stop := by
    have hbounds_le := options.bounds_le (rankedPool outcomes).length
    rwa [hbounds] at hbounds_le
  have hparts : (rankedPool outcomes).take start ++ (((rankedPool outcomes).take stop).drop start ++
      (rankedPool outcomes).drop stop) = rankedPool outcomes := by
    have hstart : (rankedPool outcomes).take start =
        ((rankedPool outcomes).take stop).take start := by
      rw [List.take_take, Nat.min_eq_left hle]
    rw [hstart, ← List.append_assoc, List.take_append_drop, List.take_append_drop]
  have hnodup := (isRanking_rankedPool outcomes).nodup
  rw [← hparts] at hnodup
  have hmiddle := filter_middle hnodup
  rw [hparts] at hmiddle
  simp only [Throw.ofOutcomes, hbounds]
  rw [map_value_filter_markDropped, ← hmiddle]
  exact (((rankedPool_perm outcomes).filter _).map _).symm

/-- The total is the sum of the dice that were neither rolled again nor dropped. -/
theorem total_ofOutcomes (options : Options) :
    (Throw.ofOutcomes options outcomes).total =
      (((Throw.ofOutcomes options outcomes).outcomes.filter fun o =>
        !o.rerolled && !o.dropped).map (·.value)).sum := by
  rw [(standing_perm_slice outcomes options rfl).sum_eq, ← sumOfValues_eq_sum]
  rfl

/-! ## Groups -/

/-- Marking does not change the ranking. -/
theorem isRanking_ofOutcomes (options : Options) :
    IsRanking (Throw.ofOutcomes options outcomes).outcomes
      ((rankedPool outcomes).map Prod.snd) := by
  have hranking := isRanking_rankedPool outcomes
  have hvalue : valueAt (Throw.ofOutcomes options outcomes).outcomes = valueAt outcomes := by
    funext i
    exact congrArg (List.getD · i 0) (map_markDropped _ (fun _ _ => rfl) _ _)
  constructor
  · intro i
    rw [hranking.mem_iff i]
    exact (congrArg (·[i]? = some false) (map_markDropped _ (fun _ _ => rfl) _ _)).symm.to_iff
  · exact hranking.pairwise.imp fun {i j} hij => by rwa [Precedes, hvalue]

theorem length_filter_rerolled :
    (outcomes.filter fun o => !o.rerolled).length = (outcomes.map (·.rerolled)).countP (!·) := by
  rw [List.countP_map, List.countP_eq_length_filter]
  rfl

theorem length_rankedPool :
    (rankedPool outcomes).length = (outcomes.filter fun o => !o.rerolled).length := by
  have hfst : (poolOf outcomes).map Prod.fst = outcomes.filter fun o => !o.rerolled := by
    conv_rhs => rw [← List.zipIdx_map_fst 0 outcomes, List.filter_map]
    rfl
  rw [(rankedPool_perm outcomes).length_eq, ← hfst, List.length_map]

theorem dropped_eq_false_of_rerolled (options : Options) {outcome : Outcome}
    (h : outcome ∈ (Throw.ofOutcomes options outcomes).outcomes) (hr : outcome.rerolled = true) :
    outcome.dropped = false := by
  obtain ⟨i, hi⟩ := List.mem_iff_getElem?.1 h
  refine Bool.eq_false_iff.2 fun hd => ?_
  have hdropped : IsDropped (Throw.ofOutcomes options outcomes).outcomes i := by
    rw [IsDropped, List.getElem?_map, hi, Option.map_some, hd]
  have hmem : i ∈ (rankedPool outcomes).map Prod.snd :=
    ((isDropped_ofOutcomes outcomes options rfl i).1 hdropped).elim List.mem_of_mem_take
      List.mem_of_mem_drop
  have hrerolled := ((isRanking_ofOutcomes outcomes options).mem_iff i).1 hmem
  rw [List.getElem?_map, hi, Option.map_some, hr] at hrerolled
  cases hrerolled

/-- How the selection of a group falls out. If its pool, the dice not rolled again, holds as many
    dice as are selected, then exactly the selected end of the ranking is kept or dropped, and
    without a selection no die is dropped. A die that was rolled again is never dropped; the dice
    stay in order with their values and their other marks; and the total is the sum of the dice that
    were neither rolled again nor dropped. -/
theorem throwDice_selectedBy {count : Int} {faces : Faces} {options : Options}
    {source after : Source} {throw : Throw}
    (h : throwDice count faces options source = (.ok throw, after))
    (hcount : ∀ selection, options.selection = some selection →
      selection.count ≤ (throw.outcomes.filter fun o => !o.rerolled).length) :
    (∃ order, (∀ other, IsRanking throw.outcomes other ↔ other = order) ∧
        SelectedBy throw.outcomes order options.selection) ∧
      (∀ outcome ∈ throw.outcomes, outcome.rerolled = true → outcome.dropped = false) ∧
      (∃ rolled, rollPending faces options count.toNat rerollBudget source = (.ok rolled, after) ∧
        throw.outcomes.map (fun o => (o.value, o.rerolled, o.exploded)) =
          rolled.map fun o => (o.value, o.rerolled, o.exploded)) ∧
      throw.total =
        ((throw.outcomes.filter fun o => !o.rerolled && !o.dropped).map (·.value)).sum := by
  rw [throwDice] at h
  split at h
  · cases h
  · rename_i rolled last hrolled
    cases h
    have hlength : ((Throw.ofOutcomes options rolled).outcomes.filter fun o =>
        !o.rerolled).length = (rankedPool rolled).length := by
      rw [length_rankedPool, length_filter_rerolled, length_filter_rerolled, Throw.ofOutcomes]
      exact congrArg _ (map_markDropped _ (fun _ _ => rfl) _ _)
    rw [hlength] at hcount
    have hranking := isRanking_ofOutcomes rolled options
    refine ⟨⟨_, fun other => ⟨hranking.eq, fun h => h ▸ hranking⟩,
      selectedBy_ofOutcomes rolled options hcount⟩,
      fun _ => dropped_eq_false_of_rerolled rolled options, ⟨rolled, hrolled, ?_⟩,
      total_ofOutcomes rolled options⟩
    exact map_markDropped _ (fun _ _ => rfl) _ _

/-- A throw of three dice that explode and are rolled again on a one, of which the two highest
    count: a six explodes, and of two threes the later one counts. -/
def keptThrow : Throw where
  outcomes :=
    [{ value := 6, exploded := true }, { value := 1, rerolled := true },
      { value := 3, dropped := true }, { value := 3 }, { value := 2, dropped := true }]
  total := 9

theorem throwDice_keptThrow :
    (∃ after, throwDice 3 (.number 6) (Options.parse ['!', 'r', '1', 'k', '2'])
        (.scripted #[6, 1, 3, 3, 2]) = (.ok keptThrow, after)) ∧
      (∃ order, (∀ other, IsRanking keptThrow.outcomes other ↔ other = order) ∧
        ∀ i, i ∈ order ∧ ¬IsDropped keptThrow.outcomes i ↔ i ∈ order.rtake 2) ∧
      keptThrow.total =
        ((keptThrow.outcomes.filter fun o => !o.rerolled && !o.dropped).map (·.value)).sum := by
  have hthrow : throwDice 3 (.number 6) (Options.parse ['!', 'r', '1', 'k', '2'])
      (.scripted #[6, 1, 3, 3, 2]) = (.ok keptThrow, (throwDice 3 (.number 6)
        (Options.parse ['!', 'r', '1', 'k', '2']) (.scripted #[6, 1, 3, 3, 2])).2) :=
    Prod.ext (by cbv) rfl
  have hselection : (Options.parse ['!', 'r', '1', 'k', '2']).selection =
      some (.keep .high 2 (by decide)) := by
    cbv
  have hcount : ∀ selection, (Options.parse ['!', 'r', '1', 'k', '2']).selection = some selection →
      selection.count ≤ (keptThrow.outcomes.filter fun o => !o.rerolled).length := by
    rw [hselection]
    rintro selection ⟨⟩
    decide
  obtain ⟨⟨order, hunique, hselected⟩, -, -, htotal⟩ := throwDice_selectedBy hthrow hcount
  rw [hselection] at hselected
  exact ⟨⟨_, hthrow⟩, ⟨order, hunique, hselected⟩, htotal⟩

end DiceNotation
