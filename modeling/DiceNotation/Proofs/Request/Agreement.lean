import DiceNotation.Request.Report
import DiceNotation.Proofs.Request.Discipline
import DiceNotation.Proofs.Request.Scan

/-!
# Results and rolls

A request shows its result beside the rolls that it stores. An execution stores the rolls group by
group and the result last, so the two are of one execution unless a fault comes in between:

* An execution that ends leaves a result that is the value of the formula over the stored values, or
    an error (`Request.agrees_of_ended`).
* A fault leaves the result of an earlier execution beside the values that were rolled anew
    (`Request.execute_of_fault`). With two dice and a source that fails on the second one, they
    contradict each other (`Request.disagrees_of_fault`).

The result therefore agrees with the rolls in every request that is *settled*: no fault has changed
its values since the last execution that ended (`Request.details_agree`).
-/

namespace DiceNotation

namespace Request

variable {start request : Request}

/-- The result of the request, if it has one and no error, is the value of its formula with every
    slot standing for the value that is stored now. -/
def Agrees (request : Request) : Prop :=
  request.error = none → ∀ number, request.result = some number →
    ∃ formula, Formula.compile request.formula = .ok formula ∧
      formula.evaluate (Value.scope request.values) = .ok number

/-- The requests that come of executing a request any number of times. -/
inductive Executed (start : Request) : Request → Prop
  | start : Executed start start
  | execute {request : Request} (source : Source) :
    Executed start request → Executed start (request.execute source).request

/-- The executed requests in which the values are as the last execution left them that ended. -/
inductive Settled (start : Request) : Request → Prop
  | start : Settled start start
  | ended {request : Request} {source : Source} :
    Executed start request → (request.execute source).fault = none →
      Settled start (request.execute source).request
  | untouched {request : Request} {source : Source} :
    Settled start request → (request.execute source).request.values = request.values →
      Settled start (request.execute source).request

/-! ## One execution -/

/-- An execution ends with an error, or with the value of the formula over the values that it has
    rolled; or a fault stops it, and it has only changed values. -/
theorem execute_cases (request : Request) (source : Source) :
    (∃ error, (request.execute source).fault = none ∧
        (request.execute source).request.error = some error) ∨
      (∃ formula values number after, Formula.compile request.formula = .ok formula ∧
        formula.evaluate (Value.scope values) = .ok number ∧ request.execute source =
          ⟨none, { request with values := values, result := some number }, after⟩) ∨
      ∃ fault values after,
        request.execute source = ⟨some fault, { request with values := values }, after⟩ := by
  rcases Option.eq_none_or_eq_some request.error with herror | ⟨error, herror⟩
  · by_cases hgroups : request.groupFaults = []
    · cases hformula : Formula.compile request.formula with
      | error error =>
        rw [execute_of_unreadable herror hgroups hformula]
        exact .inl ⟨_, rfl, rfl⟩
      | ok formula =>
        rw [execute_eq_rollAndEvaluate herror hgroups hformula]
        rcases hroll : Value.rollAll request.values source with ⟨_ | e, values, after⟩
        · rw [rollAndEvaluate_eq_conclude hroll]
          rcases hevaluate : formula.evaluate (Value.scope values) with (error | breakdown) | number
          · exact .inl ⟨_, rfl, rfl⟩
          · exact .inr (.inr ⟨_, _, _, rfl⟩)
          · exact .inr (.inl ⟨formula, values, number, after, rfl, hevaluate, rfl⟩)
        · rw [rollAndEvaluate, hroll]
          exact .inr (.inr ⟨_, _, _, rfl⟩)
    · rw [execute_of_groupFaults herror hgroups]
      exact .inl ⟨_, rfl, rfl⟩
  · rw [execute_of_error herror]
    exact .inl ⟨error, rfl, herror⟩

variable {source : Source}

theorem agrees_of_ended (h : (request.execute source).fault = none) :
    (request.execute source).request.Agrees := by
  rcases execute_cases request source with ⟨error, -, hfailed⟩ |
    ⟨formula, values, number, after, hformula, hnumber, hexecute⟩ | ⟨fault, values, after, hexecute⟩
  · intro herror
    rw [hfailed] at herror
    cases herror
  · rw [hexecute]
    rintro - _ ⟨⟩
    exact ⟨formula, hformula, hnumber⟩
  · rw [hexecute] at h
    cases h

/-- A fault leaves everything but the values as it was. -/
theorem execute_of_fault {fault : Fault} (h : (request.execute source).fault = some fault) :
    (request.execute source).request =
      { request with values := (request.execute source).request.values } := by
  rcases execute_cases request source with ⟨error, hended, -⟩ |
    ⟨formula, values, number, after, -, -, hexecute⟩ | ⟨fault, values, after, hexecute⟩
  · rw [h] at hended
    cases hended
  · rw [hexecute] at h
    cases h
  · rw [hexecute]

/-- An execution that has changed no value keeps the agreement. -/
theorem Agrees.execute (h : request.Agrees)
    (hvalues : (request.execute source).request.values = request.values) :
    (request.execute source).request.Agrees := by
  cases hfault : (request.execute source).fault with
  | none => exact agrees_of_ended hfault
  | some fault =>
    rw [execute_of_fault hfault, hvalues]
    exact h

/-! ## Many executions -/

/-- A settled request agrees with its rolls, if there was no result to begin with. -/
theorem Settled.agrees (hstart : start.result = none) (h : Settled start request) :
    request.Agrees := by
  induction h with
  | start =>
    rintro - number hresult
    rw [hstart] at hresult
    cases hresult
  | ended _ hended => exact agrees_of_ended hended
  | untouched _ hvalues ih => exact ih.execute hvalues

theorem result_addPiece? {request added : Request} {piece : Piece}
    (h : request.addPiece? piece = some added) : added.result = request.result := by
  cases piece with
  | dice lexeme modifiers =>
    cases h
    rfl
  | constant digits =>
    obtain ⟨n, -, rfl⟩ := Option.map_eq_some_iff.1 h
    rfl
  | operator c =>
    cases h
    rfl

/-- Reading gives no result. -/
theorem result_scan (request : Request) (text : Text) :
    (request.scan text).1.result = request.result :=
  scan_invariant (fun scanned => scanned.result = request.result)
    (fun _ hadd h => (result_addPiece? hadd).trans h) (fun _ h => h) rfl text

theorem result_parse (text : Text) : (parse text).result = none := by
  rw [parse_eq, requireDice_eq]
  exact result_scan {} (strip text)

/-- In every settled request without an error that has a result, the result is the value of the
    formula over the values that are stored now, and the detailed report shows it above them. -/
theorem details_agree {text : Text} {number : Number} (h : Settled (parse text) request)
    (herror : request.error = none) (hresult : request.result = some number) :
    (∃ formula, Formula.compile request.formula = .ok formula ∧
        formula.evaluate (Value.scope request.values) = .ok number) ∧
      (∀ i, (Value.scope request.values).value? (slotIdentifier i) =
        request.values[i]?.map Value.quantity) ∧
      request.details = joinWith lineEnd (request.label.toList ++
        ["Total: ".toList ++ number.text, "Formula: ".toList ++ request.text, "Rolls:".toList] ++
          request.groups.map Group.describe) := by
  refine ⟨h.agrees (result_parse text) herror number hresult, Value.value?_scope _, ?_⟩
  have hnumber : request.resultText = number.text := by rw [resultText, hresult]
  have htotal : request.totalLine = "Total: ".toList ++ number.text :=
    congrArg ("Total: ".toList ++ ·) hnumber
  rw [details, herror]
  dsimp only
  rw [detailLines, htotal]

/-- A request for two dice. -/
def twoDice : Request :=
  parse "d6 + d6".toList

/-- The request for two dice after a roll of three and four. -/
def sevenRolled : Request :=
  (twoDice.execute (.scripted #[3, 4])).request

/-- The formula of two values that are added. -/
def sumFormula : Formula where
  text := "slot0 + slot1".toList
  body := .value (.binary .add (.name (slotIdentifier 0)) (.name (slotIdentifier 1)))

set_option maxRecDepth 6000 in
/-- A second execution that fails on its first draw leaves the request as it was. -/
theorem details_agree_sevenRolled :
    Settled twoDice (sevenRolled.execute (.scripted #[])).request ∧
      (sevenRolled.execute (.scripted #[])).fault = some (.roll (.draw (.exhausted 0))) ∧
      ∃ formula, Formula.compile (sevenRolled.execute (.scripted #[])).request.formula =
          .ok formula ∧
        formula.evaluate (Value.scope (sevenRolled.execute (.scripted #[])).request.values) =
          .ok (.int 7) := by
  have hended : (twoDice.execute (.scripted #[3, 4])).fault = none := by cbv
  have hvalues : (sevenRolled.execute (.scripted #[])).request.values = sevenRolled.values := by cbv
  have hfault : (sevenRolled.execute (.scripted #[])).fault =
      some (.roll (.draw (.exhausted 0))) := by cbv
  have herror : (sevenRolled.execute (.scripted #[])).request.error = none := by cbv
  have hresult : (sevenRolled.execute (.scripted #[])).request.result = some (.int 7) := by cbv
  have hsettled : Settled twoDice (sevenRolled.execute (.scripted #[])).request :=
    .untouched (.ended .start hended) hvalues
  obtain ⟨hagrees, -, -⟩ := details_agree hsettled herror hresult
  exact ⟨hsettled, hfault, hagrees⟩

/-- The request for two dice after a second roll in which only one die fell, on five. -/
def halfRolled : Request :=
  (sevenRolled.execute (.scripted #[5])).request

set_option maxRecDepth 6000 in
/-- The dice are now five and four, and the result is still seven. -/
theorem disagrees_of_fault :
    Executed twoDice halfRolled ∧ halfRolled.error = none ∧ halfRolled.result = some (.int 7) ∧
      Formula.compile halfRolled.formula = .ok sumFormula ∧
      sumFormula.evaluate (Value.scope halfRolled.values) = .ok (.int 9) ∧ ¬halfRolled.Agrees := by
  have hexecuted : Executed twoDice halfRolled := .execute _ (.execute _ .start)
  have herror : halfRolled.error = none := by cbv
  have hresult : halfRolled.result = some (.int 7) := by cbv
  have hformula : Formula.compile halfRolled.formula = .ok sumFormula := by cbv
  have hvalue : sumFormula.evaluate (Value.scope halfRolled.values) = .ok (.int 9) := by cbv
  refine ⟨hexecuted, herror, hresult, hformula, hvalue, fun hagrees => ?_⟩
  obtain ⟨formula, hcompile, hevaluate⟩ := hagrees herror _ hresult
  rw [hformula] at hcompile
  cases hcompile
  rw [hvalue] at hevaluate
  cases hevaluate

end Request

end DiceNotation
