import DiceNotation.Proofs.Dice.Stretch
import DiceNotation.Proofs.Request.Execution
import DiceNotation.Proofs.Request.Slot
import Mathlib.Logic.Relation
import Mathlib.Data.List.Forall2

/-!
# The discipline of execution

A request is built by reading a text or from nothing, by appending values and operators, and by
executing it in between (`Request.Reachable`). Whatever its history, an execution of it keeps to the
same rules (`Request.Disciplined`):

* A request with an error is left alone, and so are the dice of a request that has an invalid group
    or no readable formula: only the error is recorded, about the groups first.
* Otherwise the groups are rolled in turn, each on the stretch of the source that begins where that
    of the group before it ends (`Value.RolledInTurn`), and the formula is evaluated over the new
    totals.

An error that was recorded stays (`Request.error_of_steps`).
-/

namespace DiceNotation

variable {source : Source}

/-! ## Rolling in turn -/

namespace Value

/-- The values `rolled` are `values` with every group thrown anew, on a stretch of the source that
begins where the stretch of the group before it ends. Every group takes from its stretch the draws
that its dice make of a fresh source; `calls` lists them group by group. -/
inductive RolledInTurn : Source → List Value → List Value → List (List Interval) → Prop
  | nil {source : Source} : RolledInTurn source [] [] []
  | constant {source : Source} {n : Int} {values rolled : List Value}
    {calls : List (List Interval)} :
    RolledInTurn source values rolled calls →
      RolledInTurn source (.constant n :: values) (.constant n :: rolled) calls
  | group {source : Source} {group : Group} {thrown : Throw} {own : List Interval}
    {values rolled : List Value} {calls : List (List Interval)} :
    throwDice group.dice group.faces group.options source.rest =
        (.ok thrown, source.rest.extend own) →
      RolledInTurn (source.extend own) values rolled calls →
      RolledInTurn source (.group group :: values)
        (.group { group with outcomes := thrown.outcomes, total := thrown.total } :: rolled)
        (own :: calls)

theorem rolledInTurn_of_rollAll {values rolled : List Value} {after : Source}
    (h : rollAll values source = (none, rolled, after)) :
    ∃ calls, RolledInTurn source values rolled calls ∧ after = source.extend calls.flatten := by
  induction values generalizing source rolled with
  | nil =>
    cases h
    exact ⟨[], .nil, (Source.extend_nil _).symm⟩
  | cons value values ih =>
    cases value with
    | constant n =>
      rw [rollAll] at h
      rcases hrest : rollAll values source with ⟨error, more, last⟩
      rw [hrest] at h
      cases h
      obtain ⟨calls, hturn, hlast⟩ := ih hrest
      exact ⟨calls, .constant hturn, hlast⟩
    | group group =>
      -- The group makes its draws as from a fresh source, and the induction goes on behind them.
      obtain ⟨own, hfresh, hthrow⟩ :=
        exists_throwDice_rest group.dice group.faces group.options source
      rw [rollAll, Group.rollDice, hthrow] at h
      rcases hresult : throwDice group.dice group.faces group.options source.rest with
        ⟨e | thrown, later⟩
      · rw [hresult] at h
        cases h
      · rw [hresult] at h hfresh
        dsimp only at h hfresh
        rcases hrest : rollAll values (source.extend own) with ⟨error, more, last⟩
        rw [hrest] at h
        cases h
        obtain ⟨calls, hturn, rfl⟩ := ih hrest
        refine ⟨own :: calls, .group ?_ hturn, ?_⟩
        · rw [hresult, hfresh]
        · rw [Source.extend_extend, List.flatten_cons]

/-- If all groups have dice that can be rolled, the values fail to be rolled only if a draw
fails. -/
theorem error_of_rollAll_of_isDie {values rolled : List Value} {after : Source} {e : RollError}
    (hdice : ∀ group, .group group ∈ values → group.faces.IsDie)
    (h : rollAll values source = (some e, rolled, after)) : ∃ refusal, e = .draw refusal := by
  induction values generalizing source rolled with
  | nil => cases h
  | cons value values ih =>
    have hmore : ∀ group, .group group ∈ values → group.faces.IsDie :=
      fun group hgroup => hdice group (List.mem_cons_of_mem _ hgroup)
    cases value with
    | constant n =>
      rw [rollAll] at h
      rcases hrest : rollAll values source with ⟨error, more, last⟩
      rw [hrest] at h
      cases h
      exact ih hmore hrest
    | group group =>
      rw [rollAll] at h
      split at h
      · rename_i hroll
        cases h
        exact Group.error_of_rollDice (hdice group List.mem_cons_self) hroll
      · rename_i thrown later hroll
        rcases hrest : rollAll values later with ⟨error, more, last⟩
        rw [hrest] at h
        cases h
        exact ih hmore hrest

/-- The second value is the first one, with another throw if it is a group. -/
inductive Rethrown : Value → Value → Prop
  | same (value : Value) : Rethrown value value
  | group {group : Group} (outcomes : List Outcome) (total : Int) :
    Rethrown (.group group) (.group { group with outcomes := outcomes, total := total })

/-- Rolling touches nothing but the throws of groups. -/
theorem rethrown_rollAll (values : List Value) (source : Source) :
    List.Forall₂ Rethrown values (rollAll values source).2.1 := by
  induction values generalizing source with
  | nil => exact .nil
  | cons value values ih =>
    cases value with
    | constant n => exact .cons (.same _) (ih source)
    | group group =>
      rw [rollAll, Group.rollDice]
      rcases throwDice group.dice group.faces group.options source with ⟨e | thrown, after⟩
      · exact List.forall₂_same.2 fun value _ => .same value
      · exact .cons (.group _ _) (ih after)

theorem isRollable_of_mem_rollAll {values : List Value} (h : ∀ value ∈ values, value.IsRollable) :
    ∀ value ∈ (rollAll values source).2.1, value.IsRollable := by
  have hrolled := rethrown_rollAll values source
  generalize (rollAll values source).2.1 = rolled at hrolled
  induction hrolled with
  | nil => exact h
  | cons hvalue _ ih =>
    obtain ⟨hfirst, hmore⟩ := List.forall_mem_cons.1 h
    refine List.forall_mem_cons.2 ⟨?_, ih hmore⟩
    cases hvalue <;> exact hfirst

end Value

/-! ## The history of a request -/

namespace Request

/-- One thing done to a request: a value or an operator is appended, or the request is executed. The
group that is appended may have been rolled before. A constant is taken to be short enough to be
written, and a value to be appended once, since each one gets a slot of its own. -/
inductive Step : Request → Request → Prop
  | group {request : Request} {count faces options : Text} {group : Group}
    (outcomes : List Outcome) (total : Int) :
    Group.create count faces options = .ok group →
      Step request (request.addValue (.group { group with outcomes := outcomes, total := total }))
  | constant {request : Request} (n : Int) : Step request (request.addValue (.constant n))
  | operator {request : Request} {c : Char} :
    c ∈ operatorChars → Step request (request.addOperator [c])
  | execute {request : Request} (source : Source) : Step request (request.execute source).request

/-- The requests that come of reading a text, or of nothing, by any number of steps. -/
inductive Reachable : Request → Prop
  | empty : Reachable {}
  | parse (text : Text) : Reachable (parse text)
  | step {request next : Request} : Reachable request → Step request next → Reachable next

variable {request next : Request}

/-- The values of an executed request are those it had, or those values rolled. -/
theorem values_execute (request : Request) (source : Source) :
    (request.execute source).request.values = request.values ∨
      (request.execute source).request.values = (Value.rollAll request.values source).2.1 := by
  rw [execute]
  split
  · exact .inl rfl
  · split
    · split
      · exact .inl rfl
      · right
        rw [rollAndEvaluate]
        split
        · rename_i hroll
          rw [hroll]
        · rename_i hroll
          rw [hroll]
          dsimp only
          split <;> rfl
    · exact .inl rfl

theorem Step.isRollable (h : Step request next)
    (hrollable : ∀ value ∈ request.values, value.IsRollable) :
    ∀ value ∈ next.values, value.IsRollable := by
  cases h with
  | group outcomes total hcreate =>
    refine List.forall_mem_append.2 ⟨hrollable, List.forall_mem_singleton.2 ?_⟩
    obtain rfl := Group.eq_assemble_of_create hcreate
    exact fun h => (Group.isSound_assemble h).die
  | constant n => exact List.forall_mem_append.2 ⟨hrollable, List.forall_mem_singleton.2 trivial⟩
  | operator hc => exact hrollable
  | execute source =>
    rcases values_execute request source with hvalues | hvalues
    · rwa [hvalues]
    · rw [hvalues]
      exact Value.isRollable_of_mem_rollAll hrollable

theorem Reachable.isRollable (h : request.Reachable) :
    ∀ value ∈ request.values, value.IsRollable := by
  induction h with
  | empty => exact List.forall_mem_nil _
  | parse text => exact fun value hvalue => isRollable_of_mem_values hvalue
  | step _ hstep ih => exact hstep.isRollable ih

theorem execute_of_error {error : RequestError} (h : request.error = some error)
    (source : Source) : request.execute source = ⟨none, request, source⟩ := by
  rw [execute, if_pos]
  rw [isValid, h]
  rfl

theorem Step.error (h : Step request next) {error : RequestError}
    (herror : request.error = some error) : next.error = some error := by
  cases h with
  | group => exact herror
  | constant => exact herror
  | operator => exact herror
  | execute source => rwa [execute_of_error herror]

/-- An error stays, whatever is done to the request. -/
theorem error_of_steps (h : Relation.ReflTransGen Step request next) {error : RequestError}
    (herror : request.error = some error) : next.error = some error := by
  induction h with
  | refl => exact herror
  | tail _ hstep ih => exact hstep.error ih

/-! ## Executing -/

/-- The line reports the group with its fault. -/
def IsFaultLine (group : Group) (line : Text) : Prop :=
  ∃ fault, group.error = some fault ∧
    line = '(' :: group.text ++ [')', ' '] ++ fault.message.toList

/-- The execution that an evaluation of the formula concludes: a number becomes the result and a
reported failure the error of the request, and a breakdown cuts the execution short. -/
def conclude (request : Request) (source : Source) : Evaluation Number → Execution
  | .ok number => ⟨none, { request with result := some number }, source⟩
  | .error (.reported error) => ⟨none, { request with error := some (.formula error) }, source⟩
  | .error (.broken breakdown) => ⟨some (.broken breakdown), request, source⟩

/-- The groups are rolled in turn, and the formula is evaluated with every slot standing for the new
total of its group, or for its constant. -/
def IsPlayed (request : Request) (formula : Formula) (source : Source) : Prop :=
  ∃ rolled calls, Value.RolledInTurn source request.values rolled calls ∧
    (∀ i, (Value.scope rolled).value? (slotIdentifier i) = rolled[i]?.map Value.quantity) ∧
    request.execute source = { request with values := rolled }.conclude
      (source.extend calls.flatten) (formula.evaluate (Value.scope rolled))

/-- The rules of an execution. -/
structure Disciplined (request : Request) (source : Source) : Prop where
  /-- A request with an error is left alone. -/
  of_error : request.error ≠ none → request.execute source = ⟨none, request, source⟩
  /-- Nothing is drawn for a request with invalid groups, and only an error is recorded: it has one
  line for each of them, in order. -/
  of_invalid : request.error = none → (∃ group ∈ request.groups, group.isValid = false) →
    ∃ error lines, request.execute source = ⟨none, { request with error := some error }, source⟩ ∧
      List.Forall₂ IsFaultLine (request.groups.filter fun group => !group.isValid) lines ∧
      error.message = joinWith lineEnd ("Invalid values:".toList :: lines)
  /-- Nothing is drawn for a request with valid groups whose formula cannot be read, and only that
  is recorded. -/
  of_unreadable : request.error = none → (∀ group ∈ request.groups, group.isValid = true) →
    ∀ error, Formula.compile request.formula = .error error →
      request.execute source =
        ⟨none, { request with error := some (.formula error) }, source⟩
  /-- Unless a draw fails, all other requests are rolled group by group and evaluated. -/
  of_readable : request.error = none → (∀ group ∈ request.groups, group.isValid = true) →
    ∀ formula, Formula.compile request.formula = .ok formula →
      (∀ refusal, (request.execute source).fault ≠ some (.roll (.draw refusal))) →
      request.IsPlayed formula source

theorem groupFaults_eq_nil_iff :
    request.groupFaults = [] ↔ ∀ group ∈ request.groups, group.isValid = true := by
  simp only [groupFaults, List.filterMap_eq_nil_iff, Option.map_eq_none_iff, Group.isValid,
    Option.isNone_iff_eq_none]

theorem forall₂_faultLine (groups : List Group) :
    List.Forall₂ IsFaultLine (groups.filter fun group => !group.isValid)
      ((groups.filterMap fun group =>
        group.error.map fun error => (group.text, error)).map faultLine) := by
  induction groups with
  | nil => exact .nil
  | cons group groups ih =>
    cases herror : group.error with
    | none =>
      rw [List.filterMap_cons_none (by rw [herror]; rfl), List.filter_cons_of_neg]
      · exact ih
      · rw [Group.isValid, herror]
        decide
    | some fault =>
      rw [List.filterMap_cons_some (by rw [herror]; rfl), List.filter_cons_of_pos]
      · exact .cons ⟨fault, herror, rfl⟩ ih
      · rw [Group.isValid, herror]
        rfl

theorem not_invalid (h : request.error = none) : ¬ (!request.isValid) = true := by
  rw [isValid, h]
  decide

theorem execute_eq_rollAndEvaluate {formula : Formula} (herror : request.error = none)
    (hgroups : request.groupFaults = []) (hformula : Formula.compile request.formula = .ok formula)
    (source : Source) : request.execute source = request.rollAndEvaluate formula source := by
  rw [execute, if_neg (not_invalid herror), hgroups, hformula]

theorem execute_of_groupFaults (herror : request.error = none) (hgroups : request.groupFaults ≠ [])
    (source : Source) : request.execute source =
      ⟨none, { request with error := some (.invalidGroups request.groupFaults) }, source⟩ := by
  rw [execute, if_neg (not_invalid herror)]
  split
  · exact absurd ‹_› hgroups
  · rfl

theorem execute_of_unreadable {error : FormulaError} (herror : request.error = none)
    (hgroups : request.groupFaults = [])
    (hformula : Formula.compile request.formula = .error error) (source : Source) :
    request.execute source = ⟨none, { request with error := some (.formula error) }, source⟩ := by
  rw [execute, if_neg (not_invalid herror), hgroups, hformula]
  rfl

/-- If all values are rolled, what follows is the evaluation. -/
theorem rollAndEvaluate_eq_conclude {formula : Formula} {rolled : List Value} {after : Source}
    (h : Value.rollAll request.values source = (none, rolled, after)) :
    request.rollAndEvaluate formula source =
      { request with values := rolled }.conclude after
        (formula.evaluate (Value.scope rolled)) := by
  rw [rollAndEvaluate, h]
  dsimp only
  split
  · rename_i hevaluate
    rw [hevaluate, conclude]
  · rename_i hevaluate
    rw [hevaluate, conclude, fail]
  · rename_i hevaluate
    rw [hevaluate, conclude]

/-- The dice of valid groups can be rolled, and so only a draw that fails keeps a request from being
played. -/
theorem isPlayed_of_reachable {formula : Formula} (h : request.Reachable)
    (herror : request.error = none) (hgroups : request.groupFaults = [])
    (hformula : Formula.compile request.formula = .ok formula)
    (hdraws : ∀ refusal, (request.execute source).fault ≠ some (.roll (.draw refusal))) :
    request.IsPlayed formula source := by
  have hdice : ∀ group, .group group ∈ request.values → group.faces.IsDie := by
    intro group hmem
    have hvalid := groupFaults_eq_nil_iff.1 hgroups group
      (List.mem_filterMap.2 ⟨.group group, hmem, rfl⟩)
    exact h.isRollable _ hmem (Option.isNone_iff_eq_none.1 hvalid)
  -- What is left to fail are the draws, which do not.
  rw [IsPlayed, execute_eq_rollAndEvaluate herror hgroups hformula]
  rw [execute_eq_rollAndEvaluate herror hgroups hformula] at hdraws
  rcases hroll : Value.rollAll request.values source with ⟨_ | e, rolled, after⟩
  · obtain ⟨calls, hturn, rfl⟩ := Value.rolledInTurn_of_rollAll hroll
    exact ⟨rolled, calls, hturn, Value.value?_scope rolled, rollAndEvaluate_eq_conclude hroll⟩
  · obtain ⟨refusal, rfl⟩ := Value.error_of_rollAll_of_isDie hdice hroll
    refine absurd ?_ (hdraws refusal)
    rw [rollAndEvaluate, hroll]

/-- Whatever has been done to a request, its execution keeps to the rules, and an error that it has
stays. -/
theorem execute_disciplined (h : request.Reachable) :
    (∀ source, request.Disciplined source) ∧
      ∀ next, Relation.ReflTransGen Step request next →
        ∀ error, request.error = some error → next.error = some error := by
  refine ⟨fun source => ⟨?_, ?_, ?_, ?_⟩, fun next hsteps error => error_of_steps hsteps⟩
  · intro herror
    obtain ⟨error, herror⟩ := Option.ne_none_iff_exists'.1 herror
    exact execute_of_error herror source
  · rintro herror ⟨group, hmem, hinvalid⟩
    have hgroups : request.groupFaults ≠ [] := by
      intro hnil
      rw [groupFaults_eq_nil_iff.1 hnil group hmem] at hinvalid
      cases hinvalid
    exact ⟨_, _, execute_of_groupFaults herror hgroups source, forall₂_faultLine request.groups,
      rfl⟩
  · intro herror hvalid error hformula
    exact execute_of_unreadable herror (groupFaults_eq_nil_iff.2 hvalid) hformula source
  · intro herror hvalid formula hformula hdraws
    exact isPlayed_of_reachable h herror (groupFaults_eq_nil_iff.2 hvalid) hformula hdraws

/-- A request for two groups and a constant. -/
def twoGroups : Request :=
  parse "2d6!k1 - d4*3".toList

/-- The formula of that request. -/
def twoGroupsFormula : Formula where
  text := "slot0 - slot1 * slot2".toList
  body := .value (.binary .sub (.name (slotIdentifier 0))
    (.binary .mul (.name (slotIdentifier 1)) (.name (slotIdentifier 2))))

set_option maxRecDepth 6000 in
/-- The first group explodes, and so the second one begins with the fourth draw. -/
theorem execute_twoGroups :
    twoGroups.Reachable ∧ twoGroups.IsPlayed twoGroupsFormula (.scripted #[6, 2, 5, 4]) ∧
      (twoGroups.execute (.scripted #[6, 2, 5, 4])).request.result = some (.int (-6)) := by
  have hreachable : twoGroups.Reachable := .parse _
  have herror : twoGroups.error = none := by cbv
  have hvalid : twoGroups.groups.all (·.isValid) = true := by cbv
  have hformula : Formula.compile twoGroups.formula = .ok twoGroupsFormula := by cbv
  have hfault : (twoGroups.execute (.scripted #[6, 2, 5, 4])).fault = none := by cbv
  have hresult : (twoGroups.execute (.scripted #[6, 2, 5, 4])).request.result =
      some (.int (-6)) := by cbv
  obtain ⟨hdisciplined, -⟩ := execute_disciplined hreachable
  refine ⟨hreachable, ?_, hresult⟩
  refine (hdisciplined _).of_readable herror (List.all_eq_true.1 hvalid) _ hformula ?_
  intro refusal
  rw [hfault]
  exact (Option.some_ne_none _).symm

end Request

end DiceNotation
