import DiceNotation.Proofs.Dice.Budget
import DiceNotation.Proofs.Request.Discipline

/-!
# Executions that end

The dice of a group can go on exploding for as long as they show their highest face. Groups that do
not explode (`Group.IsCalm`) are rolled to the end, whatever their rules for rerolls are. They are
rolled in turn, each from where the draws of the group before it end, and every group begins with a
budget of its own: the draws of a group are its dice and as many more as its own outcomes ask for,
up to the budget (`Value.rollAll_ends`).

An execution of a request with such groups therefore makes a limited number of draws
(`Request.execute_ends`). A request with an error makes none at all, even if it could be rolled, as
one that was refused for an oversized constant (`Request.execute_oversized`).
-/

namespace DiceNotation

variable {source : Source}

/-- The dice of the group never explode: they are fudge dice, or the options do not say so. -/
def Group.IsCalm (group : Group) : Prop :=
  group.faces.isSpecial = true ∨ group.options.exploding = false

instance (group : Group) : Decidable group.IsCalm :=
  inferInstanceAs (Decidable (_ ∨ _))

/-- The draws of a group that was rolled: one for each of its dice, and one for each outcome that a
rule asks to roll again, as far as the budget of the group goes. -/
structure Group.Spent (group : Group) (own : List Interval) : Prop where
  draws : own = List.replicate group.outcomes.length group.faces.interval
  count : group.outcomes.length =
    group.dice + min rerollBudget (matchedCount group.options group.outcomes)

namespace Group.Spent

variable {group : Group} {own : List Interval}

theorem length_eq (h : group.Spent own) :
    own.length = group.dice + min rerollBudget (matchedCount group.options group.outcomes) := by
  rw [h.draws, List.length_replicate, h.count]

theorem le_length (h : group.Spent own) : group.dice ≤ own.length := by
  rw [h.length_eq]
  exact Nat.le_add_right _ _

theorem length_le (h : group.Spent own) : own.length ≤ group.dice + rerollBudget := by
  rw [h.length_eq]
  exact Nat.add_le_add_left (Nat.min_le_left _ _) _

end Group.Spent

/-- The most draws that groups make if none of them explodes. -/
def drawLimit (groups : List Group) : Nat :=
  (groups.map fun group => group.dice + rerollBudget).sum

theorem Source.extend_inj {calls other : List Interval}
    (h : source.extend calls = source.extend other) : calls = other := by
  have hdrawn := congrArg (fun source => source.drawn.toList) h
  simpa only [extend, Array.toList_append, List.append_cancel_left_eq] using hdrawn

theorem Group.IsCalm.throwDice_rest {group : Group} (hcalm : group.IsCalm)
    (hdie : group.faces.IsDie) (hs : source.AnswersInRange)
    (hrem : group.dice + rerollBudget ≤ source.remaining) :
    ∃ throw own, throwDice group.dice group.faces group.options source.rest =
        (.ok throw, source.rest.extend own) ∧
      throwDice group.dice group.faces group.options source = (.ok throw, source.extend own) ∧
      Spent { group with outcomes := throw.outcomes, total := throw.total } own := by
  obtain ⟨throw, hthrow, hcount⟩ :=
    throwDice_ends hdie (Faces.isCalm_of_isSpecial_or hcalm) hs.rest hrem
  obtain ⟨own, hrest, hsource⟩ := exists_throwDice_rest group.dice group.faces group.options source
  rw [hthrow] at hrest hsource
  obtain rfl := Source.extend_inj hrest
  exact ⟨throw, _, hthrow, hsource, rfl, hcount⟩

theorem length_flatten_le_drawLimit {groups : List Group} {calls : List (List Interval)}
    (h : List.Forall₂ (fun group own => own.length ≤ group.dice + rerollBudget) groups calls) :
    calls.flatten.length ≤ drawLimit groups := by
  induction h with
  | nil => exact Nat.le_refl 0
  | cons hown _ ih =>
    rw [List.flatten_cons, List.length_append, drawLimit, List.map_cons, List.sum_cons]
    exact Nat.add_le_add hown ih

namespace Value

/-- Values whose groups do not explode are all rolled, and every group makes draws of its own. -/
theorem rollAll_ends {values : List Value}
    (hdice : ∀ group, .group group ∈ values → group.faces.IsDie ∧ group.IsCalm)
    (hs : source.AnswersInRange)
    (hrem : drawLimit (values.filterMap group?) ≤ source.remaining) :
    ∃ rolled calls, rollAll values source = (none, rolled, source.extend calls.flatten) ∧
      RolledInTurn source values rolled calls ∧
      List.Forall₂ Group.Spent (rolled.filterMap group?) calls := by
  induction values generalizing source with
  | nil => exact ⟨[], [], by rw [rollAll, List.flatten_nil, Source.extend_nil], .nil, .nil⟩
  | cons value values ih =>
    have hmore : ∀ group, .group group ∈ values → group.faces.IsDie ∧ group.IsCalm :=
      fun group hgroup => hdice group (List.mem_cons_of_mem _ hgroup)
    cases value with
    | constant n =>
      obtain ⟨rolled, calls, hroll, hturn, hspent⟩ := ih hmore hs hrem
      refine ⟨.constant n :: rolled, calls, ?_, .constant hturn, hspent⟩
      rw [rollAll, hroll]
    | group group =>
      obtain ⟨hdie, hcalm⟩ := hdice group List.mem_cons_self
      have hlimit : drawLimit ((Value.group group :: values).filterMap group?) =
          group.dice + rerollBudget + drawLimit (values.filterMap group?) := rfl
      rw [hlimit] at hrem
      obtain ⟨throw, own, hrest, hthrow, hown⟩ := hcalm.throwDice_rest hdie hs (by omega)
      -- At least its own share of the draws is left behind the group.
      have hbehind : drawLimit (values.filterMap group?) ≤ (source.extend own).remaining := by
        have hlength := hown.length_le
        dsimp only at hlength
        rw [Source.remaining_extend]
        omega
      obtain ⟨rolled, calls, hroll, hturn, hspent⟩ := ih hmore (hs.extend own) hbehind
      refine ⟨_, own :: calls, ?_, .group hrest hturn, .cons hown hspent⟩
      rw [rollAll, Group.rollDice, hthrow]
      simp only [hroll]
      rw [Source.extend_extend, List.flatten_cons]

/-- What is said of the numbers of dice and the draws of rolled groups holds before they are rolled,
since rolling does not touch the numbers. -/
theorem RolledInTurn.forall₂_dice {r : Nat → List Interval → Prop}
    {values rolled : List Value} {calls : List (List Interval)}
    (h : RolledInTurn source values rolled calls)
    (hrolled : List.Forall₂ (fun group own => r group.dice own)
      (rolled.filterMap group?) calls) :
    List.Forall₂ (fun group own => r group.dice own) (values.filterMap group?) calls := by
  induction h with
  | nil => exact hrolled
  | constant _ ih => exact ih hrolled
  | group _ _ ih =>
    obtain ⟨hown, hmore⟩ := List.forall₂_cons.1 hrolled
    exact .cons hown (ih hmore)

end Value

namespace Request

variable {request : Request}

/-- The draws `calls`, listed group by group, are those that an execution of the request makes. -/
structure EndsAfter (request : Request) (source : Source) (calls : List (List Interval)) :
    Prop where
  /-- No roll fails. -/
  rolls : ∀ error, (request.execute source).fault ≠ some (.roll error)
  /-- The draws are made one group after the other, and there are no others. -/
  draws : (request.execute source).source = source.extend calls.flatten
  /-- A group makes as many draws as it has dice, and no more on top than its budget allows. -/
  atMost : List.Forall₂ (fun group own => own.length ≤ group.dice + rerollBudget)
    request.groups calls
  inTotal : calls.flatten.length ≤ drawLimit request.groups
  /-- A request with an error makes no draws. -/
  of_error : request.error ≠ none → calls.flatten = []
  /-- All others roll every die. -/
  atLeast : request.error = none →
    List.Forall₂ (fun group own => group.dice ≤ own.length) request.groups calls
  /-- What a group draws depends on its dice alone, as thrown from where the group before it ends,
  and its own outcomes are all that use up its budget. -/
  apart : request.error = none →
    Value.RolledInTurn source request.values (request.execute source).request.values calls ∧
      List.Forall₂ Group.Spent (request.execute source).request.groups calls

theorem source_conclude (request : Request) (source : Source) (evaluation : Evaluation Number) :
    (request.conclude source evaluation).source = source := by
  rcases evaluation with (_ | _) | _ <;> rfl

theorem values_conclude (request : Request) (source : Source) (evaluation : Evaluation Number) :
    (request.conclude source evaluation).request.values = request.values := by
  rcases evaluation with (_ | _) | _ <;> rfl

theorem fault_conclude_ne (request : Request) (source : Source) (evaluation : Evaluation Number)
    (error : RollError) : (request.conclude source evaluation).fault ≠ some (.roll error) := by
  rcases evaluation with (_ | _) | _ <;> simp [conclude]

theorem endsAfter_of_error {error : RequestError} (herror : request.error = some error)
    (source : Source) : request.EndsAfter source (request.groups.map fun _ => []) := by
  have hnone : (request.groups.map fun _ => ([] : List Interval)).flatten = [] := by
    simp
  have hexecute := execute_of_error herror source
  have hsome : request.error ≠ none := by
    rw [herror]
    exact Option.some_ne_none _
  refine ⟨?_, ?_, ?_, ?_, fun _ => hnone, (absurd · hsome), (absurd · hsome)⟩
  · intro error
    rw [hexecute]
    exact (Option.some_ne_none _).symm
  · rw [hexecute, hnone, Source.extend_nil]
  · rw [List.forall₂_map_right_iff]
    exact List.forall₂_same.2 fun group _ => Nat.zero_le _
  · rw [hnone]
    exact Nat.zero_le _

/-- An execution that rolls its values and evaluates its formula ends after the rolls. -/
theorem endsAfter_of_rollAll {formula : Formula} {rolled : List Value}
    {calls : List (List Interval)} (herror : request.error = none)
    (hexecute : request.execute source = request.rollAndEvaluate formula source)
    (hroll : Value.rollAll request.values source = (none, rolled, source.extend calls.flatten))
    (hturn : Value.RolledInTurn source request.values rolled calls)
    (hspent : List.Forall₂ Group.Spent (rolled.filterMap Value.group?) calls) :
    request.EndsAfter source calls := by
  rw [rollAndEvaluate_eq_conclude hroll] at hexecute
  have hvalues : (request.execute source).request.values = rolled := by
    rw [hexecute, values_conclude]
  have hmost := hturn.forall₂_dice (r := fun dice own => own.length ≤ dice + rerollBudget)
    (hspent.imp fun _ _ => Group.Spent.length_le)
  have hleast := hturn.forall₂_dice (r := fun dice own => dice ≤ own.length)
    (hspent.imp fun _ _ => Group.Spent.le_length)
  refine ⟨?_, ?_, hmost, length_flatten_le_drawLimit hmost, (absurd herror ·), fun _ => hleast, ?_⟩
  · rw [hexecute]
    exact fault_conclude_ne _ _ _
  · rw [hexecute, source_conclude]
  · intro _
    rw [groups, hvalues]
    exact ⟨hturn, hspent⟩

/-- If no group explodes, an execution comes to its end, whatever the rules for rerolls are, with
every source that answers in range and as often as it is asked. -/
theorem execute_ends {formula : Formula} (h : request.Reachable)
    (hvalid : ∀ group ∈ request.groups, group.isValid = true)
    (hcalm : ∀ group ∈ request.groups, group.IsCalm)
    (hformula : Formula.compile request.formula = .ok formula) (hs : source.AnswersInRange)
    (hrem : drawLimit request.groups ≤ source.remaining) :
    ∃ calls, request.EndsAfter source calls := by
  rcases herror : request.error with _ | error
  · have hdice : ∀ group, .group group ∈ request.values → group.faces.IsDie ∧ group.IsCalm := by
      intro group hvalue
      have hmem : group ∈ request.groups := List.mem_filterMap.2 ⟨.group group, hvalue, rfl⟩
      exact ⟨h.isRollable _ hvalue (Option.isNone_iff_eq_none.1 (hvalid group hmem)),
        hcalm group hmem⟩
    obtain ⟨rolled, calls, hroll, hturn, hspent⟩ := Value.rollAll_ends hdice hs hrem
    have hexecute := execute_eq_rollAndEvaluate herror (groupFaults_eq_nil_iff.2 hvalid) hformula
    exact ⟨calls, endsAfter_of_rollAll herror (hexecute source) hroll hturn hspent⟩
  · exact ⟨_, endsAfter_of_error herror source⟩

/-- A request for two groups that ask to roll every outcome again. The exclamation mark of the
second group has no effect, since fudge dice do not explode. -/
def everyFaceAgain : Request :=
  parse "2d6r<7 - 3dfr<2!".toList

set_option maxRecDepth 6000 in
/-- The rolls of the two groups end even so, after 105 draws at most. -/
theorem execute_everyFaceAgain :
    everyFaceAgain.error = none ∧ drawLimit everyFaceAgain.groups = 105 ∧
      ∃ calls, everyFaceAgain.EndsAfter (.generated 7) calls := by
  have herror : everyFaceAgain.error = none := by cbv
  have hreachable : everyFaceAgain.Reachable := .parse _
  have hvalid : everyFaceAgain.groups.all (·.isValid) = true := by cbv
  have hcalm : everyFaceAgain.groups.all (decide ·.IsCalm) = true := by cbv
  have hformula : Formula.compile everyFaceAgain.formula = .ok {
      text := "slot0 - slot1".toList
      body := .value (.binary .sub (.name (slotIdentifier 0)) (.name (slotIdentifier 1))) } := by
    cbv
  have hlimit : drawLimit everyFaceAgain.groups = 105 := by cbv
  have hrem : drawLimit everyFaceAgain.groups ≤ (Source.generated 7).remaining := by
    rw [hlimit]
    decide
  simp only [List.all_eq_true, decide_eq_true_eq] at hvalid hcalm
  exact ⟨herror, hlimit, execute_ends hreachable hvalid hcalm hformula
    (Source.answersInRange_generated 7) hrem⟩

/-- A request for one die, with a constant that is too large behind it. -/
def oversized : Request :=
  parse ("d6 ".toList ++ List.replicate 1001 '1')

set_option maxRecDepth 20000 in
/-- The die could be rolled, and the formula be evaluated: but for its error the request is as those
that roll every die. It rolls none. -/
theorem execute_oversized :
    oversized.Reachable ∧ (∃ formula, Formula.compile oversized.formula = .ok formula) ∧
      (∀ group ∈ oversized.groups, group.isValid = true ∧ group.IsCalm) ∧
      (Source.generated 7).AnswersInRange ∧
      ¬∃ calls, (oversized.execute (.generated 7)).source =
          (Source.generated 7).extend calls.flatten ∧
        List.Forall₂ (fun group own => group.dice ≤ own.length) oversized.groups calls := by
  have hparsed : oversized = {
      segments := [slotName 0]
      values := [.group { dice := 1, faces := .number 6, options := .parse [] }]
      error := some .constantTooLarge } := by cbv
  have herror : oversized.error = some .constantTooLarge := by rw [hparsed]
  have hgroups : oversized.groups = [{ dice := 1, faces := .number 6, options := .parse [] }] := by
    rw [hparsed]
    rfl
  have hdice : oversized.groups.map Group.dice = [1] := by
    rw [hgroups]
    rfl
  have hformula : Formula.compile oversized.formula = .ok {
      text := "slot0".toList
      body := .value (.name (slotIdentifier 0)) } := by
    rw [hparsed]
    cbv
  refine ⟨.parse _, ⟨_, hformula⟩, ?_, Source.answersInRange_generated 7, ?_⟩
  · rw [hgroups]
    exact List.forall_mem_singleton.2 ⟨rfl, .inr (by cbv)⟩
  · rintro ⟨calls, hdraws, hleast⟩
    rw [execute_of_error herror] at hdraws
    have hnone : [] = calls.flatten := Source.extend_inj ((Source.extend_nil _).trans hdraws)
    replace hleast : List.Forall₂ (fun dice own => dice ≤ own.length)
        (oversized.groups.map Group.dice) calls := List.forall₂_map_left_iff.2 hleast
    rw [hdice, List.forall₂_cons_left_iff] at hleast
    obtain ⟨own, more, hlength, -, rfl⟩ := hleast
    rw [List.flatten_cons, List.nil_eq, List.append_eq_nil_iff] at hnone
    rw [hnone.1] at hlength
    exact absurd hlength (by decide)

end Request

end DiceNotation
