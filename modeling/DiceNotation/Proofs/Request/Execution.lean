import DiceNotation.Request.Execution
import DiceNotation.Proofs.Dice.Validity
import DiceNotation.Proofs.Request.Notation
import DiceNotation.Proofs.Formula.Breakdown

/-!
# How executions are cut short

An execution ends with a result or a recorded error unless a fault cuts it short. Of a request that
was read from text, and with a source that answers in range, there are only two kinds of fault:

* a group asks for more draws than the source may answer (`fault_execute_eq_roll`);
* the formula breaks down on the totals of the groups, which are all rolled by then
    (`fault_execute_eq_broken_iff`).

No other fault is left because a group that was read without an error has faces that can be rolled
(`isRollable_of_mem_values`).
-/

namespace DiceNotation

/-! ## Rolling -/

/-- The roll fails only if the source has answered as many draws as it may, and the source goes on
answering in range. -/
structure RollsInRange {α : Type} (result : Except RollError α × Source) : Prop where
  error : ∀ e, result.1 = .error e → e = .draw .tooMany
  source : result.2.AnswersInRange

variable {source : Source} {faces : Faces}

theorem rollsInRange_drawOutcome {interval : Interval} (hs : source.AnswersInRange)
    (hne : interval.low ≤ interval.high) (outcome : Int → Outcome) :
    RollsInRange (drawOutcome interval outcome source) := by
  rw [drawOutcome]
  split
  · rename_i hdraw
    exact ⟨by rintro _ ⟨⟩, hs.of_draw hdraw⟩
  · rename_i hdraw
    refine ⟨?_, hs.of_draw hdraw⟩
    rintro _ ⟨⟩
    rw [hs.error_of_draw hne hdraw]

theorem rollsInRange_roll (hdie : faces.IsDie) (hs : source.AnswersInRange) (options : Options) :
    RollsInRange (faces.roll options source) := by
  rw [Faces.roll_eq_drawOutcome hdie]
  exact rollsInRange_drawOutcome hs hdie.interval_le _

theorem rollsInRange_rollPending (hdie : faces.IsDie) (hs : source.AnswersInRange)
    (options : Options) (pending budget : Nat) :
    RollsInRange (rollPending faces options pending budget source) := by
  fun_induction rollPending faces options pending budget source with
  | case1 => exact ⟨by rintro _ ⟨⟩, hs⟩
  | case2 budget source pending e after hroll =>
    have hfirst := rollsInRange_roll hdie hs options
    rw [hroll] at hfirst
    refine ⟨?_, hfirst.source⟩
    rintro _ ⟨⟩
    exact hfirst.error e rfl
  | case3 budget source pending outcome after hroll again pending' e last hrest ih =>
    have hfirst := rollsInRange_roll hdie hs options
    rw [hroll] at hfirst
    have hmore := ih hfirst.source
    rw [hrest] at hmore
    refine ⟨?_, hmore.source⟩
    rintro _ ⟨⟩
    exact hmore.error e rfl
  | case4 budget source pending outcome after hroll again pending' outcomes last hrest ih =>
    have hfirst := rollsInRange_roll hdie hs options
    rw [hroll] at hfirst
    have hmore := ih hfirst.source
    rw [hrest] at hmore
    exact ⟨by rintro _ ⟨⟩, hmore.source⟩

theorem rollsInRange_rollDice {group : Group} (hdie : group.faces.IsDie)
    (hs : source.AnswersInRange) : RollsInRange (group.rollDice source) := by
  have hpending := rollsInRange_rollPending hdie hs group.options (group.dice : Int).toNat
    rerollBudget
  rw [Group.rollDice, throwDice]
  generalize rollPending group.faces group.options (group.dice : Int).toNat rerollBudget source =
    result at hpending
  rcases result with ⟨e | outcomes, after⟩
  · refine ⟨?_, hpending.source⟩
    rintro _ ⟨⟩
    exact hpending.error e rfl
  · exact ⟨by rintro _ ⟨⟩, hpending.source⟩

theorem error_of_rollAll (hs : source.AnswersInRange) {values : List Value}
    (hdice : ∀ group, .group group ∈ values → group.faces.IsDie) {e : RollError}
    (h : (Value.rollAll values source).1 = some e) : e = .draw .tooMany := by
  induction values generalizing source with
  | nil => cases h
  | cons value values ih =>
    have hrest : ∀ group, .group group ∈ values → group.faces.IsDie :=
      fun group hgroup => hdice group (List.mem_cons_of_mem _ hgroup)
    cases value with
    | constant n =>
      rw [Value.rollAll] at h
      exact ih hs hrest h
    | group group =>
      have hfirst := rollsInRange_rollDice (hdice group List.mem_cons_self) hs
      rw [Value.rollAll] at h
      split at h
      · rename_i error after hroll
        rw [hroll] at hfirst
        cases h
        exact hfirst.error _ rfl
      · rename_i thrown after hroll
        rw [hroll] at hfirst
        exact ih hfirst.source hrest h

/-! ## Parsed groups -/

/-- The faces of the value can be rolled, unless it is a group with an error. -/
def Value.IsRollable : Value → Prop
  | .group g => g.error = none → g.faces.IsDie
  | .constant _ => True

namespace Request

/-- What holds of all constants and of all groups that are assembled holds of the values that are
scanned. -/
theorem forall_mem_values_scan (holds : Value → Prop) (hconstant : ∀ n, holds (.constant n))
    (hgroup : ∀ count faces options, holds (.group (Group.assemble count faces options)))
    (request : Request) (text : Text) (h : ∀ value ∈ request.values, holds value) :
    ∀ value ∈ (request.scan text).1.values, holds value := by
  refine scan_invariant (fun request => ∀ value ∈ request.values, holds value) ?_
    (fun _ h => h) h text
  intro request added piece _ hadd h
  cases piece with
  | dice lexeme modifiers =>
    cases hadd
    exact List.forall_mem_append.2 ⟨h, List.forall_mem_singleton.2 (hgroup _ _ _)⟩
  | constant digits =>
    obtain ⟨n, -, rfl⟩ := Option.map_eq_some_iff.1 hadd
    exact List.forall_mem_append.2 ⟨h, List.forall_mem_singleton.2 (hconstant n)⟩
  | operator c =>
    cases hadd
    exact h

/-- Every group that is read without an error has faces that can be rolled. -/
theorem isRollable_of_mem_values {text : Text} {value : Value} (h : value ∈ (parse text).values) :
    value.IsRollable := by
  have hgroup : ∀ count faces options,
      Value.IsRollable (.group (Group.assemble count faces options)) := by
    intro count faces options
    rw [Value.IsRollable]
    exact fun h => (Group.isSound_assemble h).die
  have hnone : ∀ value ∈ ({} : Request).values, value.IsRollable := List.forall_mem_nil _
  rw [parse_eq, values_requireDice] at h
  exact forall_mem_values_scan Value.IsRollable (fun _ => trivial) hgroup {} (strip text) hnone
    value h

theorem isDie_of_groupFaults_eq_nil {text : Text} (h : (parse text).groupFaults = [])
    (group : Group) (hmem : .group group ∈ (parse text).values) : group.faces.IsDie := by
  have hrollable := isRollable_of_mem_values hmem
  rw [Value.IsRollable] at hrollable
  apply hrollable
  have hgroup : group ∈ (parse text).groups := List.mem_filterMap.2 ⟨_, hmem, rfl⟩
  have hnone := List.filterMap_eq_nil_iff.1 h group hgroup
  exact Option.map_eq_none_iff.1 hnone

/-! ## Executing -/

/-- The groups of the request are rolled, and then its formula breaks down on their totals. -/
def BreaksDown (request : Request) (source : Source) (why : Breakdown) : Prop :=
  request.isValid = true ∧ request.groupFaults = [] ∧ ∃ formula tree values after,
    Formula.compile request.formula = .ok formula ∧ formula.body = .value tree ∧
      Value.rollAll request.values source = (none, values, after) ∧
      tree.BreaksDown formula.text (Value.scope values) why

/-- The source answers as many draws as the dice of the request ask for. -/
def RollsEnd (request : Request) (source : Source) : Prop :=
  (request.execute source).fault ≠ some (.roll (.draw .tooMany))

theorem fault_rollAndEvaluate_eq_broken_iff {formula : Formula} (request : Request)
    (source : Source) (why : Breakdown) :
    (request.rollAndEvaluate formula source).fault = some (.broken why) ↔
      ∃ tree values after, formula.body = .value tree ∧
        Value.rollAll request.values source = (none, values, after) ∧
        tree.BreaksDown formula.text (Value.scope values) why := by
  rw [rollAndEvaluate]
  rcases Value.rollAll request.values source with ⟨_ | error, values, after⟩
  · have hbroken : formula.evaluate (Value.scope values) = .error (.broken why) ↔ _ :=
      formula.evaluate_eq_broken_iff
    dsimp only
    constructor
    · intro h
      split at h
      · cases h
      · cases h
      · rename_i breakdown hevaluate
        cases h
        obtain ⟨tree, hbody, htree⟩ := hbroken.1 hevaluate
        exact ⟨tree, values, after, hbody, rfl, htree⟩
    · rintro ⟨tree, _, _, hbody, ⟨⟩, htree⟩
      rw [hbroken.2 ⟨tree, hbody, htree⟩]
  · constructor
    · rintro ⟨⟩
    · rintro ⟨_, _, _, _, ⟨⟩, _⟩

theorem fault_execute_eq_broken_iff (request : Request) (source : Source) (why : Breakdown) :
    (request.execute source).fault = some (.broken why) ↔ request.BreaksDown source why := by
  rw [execute, BreaksDown]
  cases hvalid : request.isValid with
  | false => exact ⟨nofun, fun h => nomatch h.1⟩
  | true =>
    rw [Bool.not_true, if_neg Bool.false_ne_true, and_iff_right rfl]
    cases hfaults : request.groupFaults with
    | cons fault faults => exact ⟨nofun, fun h => nomatch h.1⟩
    | nil =>
      rw [and_iff_right rfl]
      dsimp only
      cases hcompile : Formula.compile request.formula with
      | error e =>
        constructor
        · rintro ⟨⟩
        · rintro ⟨_, _, _, _, ⟨⟩, _⟩
      | ok formula =>
        rw [fault_rollAndEvaluate_eq_broken_iff]
        constructor
        · rintro ⟨tree, values, after, h⟩
          exact ⟨formula, tree, values, after, rfl, h⟩
        · rintro ⟨_, tree, values, after, ⟨⟩, h⟩
          exact ⟨tree, values, after, h⟩

theorem fault_execute_eq_roll {text : Text} (hs : source.AnswersInRange) {e : RollError}
    (h : ((parse text).execute source).fault = some (.roll e)) : e = .draw .tooMany := by
  rw [execute] at h
  split at h
  · cases h
  · split at h
    · rename_i hfaults
      split at h
      · cases h
      · rw [rollAndEvaluate] at h
        split at h
        · rename_i hroll
          cases h
          have hdice := isDie_of_groupFaults_eq_nil hfaults
          exact error_of_rollAll hs hdice (congrArg Prod.fst hroll)
        · dsimp only at h
          split at h <;> cases h
    · cases h

end Request

end DiceNotation
