import DiceNotation.Request.Basic

/-!
# Executing a request

To execute a request is to roll its groups in order and to evaluate its formula over the totals.
Whatever is wrong with the request or with the evaluation is recorded as its error. What is wrong
with the source of draws, or an evaluation that breaks down, is not: the execution is then cut short
by a fault, and the request stays as far as it got.
-/

namespace DiceNotation

/-- What cuts an execution short. -/
inductive Fault
  /-- The dice could not be rolled. -/
  | roll (error : RollError)
  /-- The evaluation broke down. -/
  | broken (breakdown : Breakdown)
  deriving DecidableEq

/-- An execution of a request: how it ended, and what it left. -/
structure Execution where
  fault : Option Fault
  request : Request
  source : Source

namespace Request

/-- The groups of the request that cannot be rolled, in notation and with their faults. -/
def groupFaults (request : Request) : List (Text × GroupError) :=
  request.groups.filterMap fun group => group.error.map fun error => (group.text, error)

/-- Records an error. -/
def fail (request : Request) (error : RequestError) : Request :=
  { request with error := some error }

/-- Rolls the values of the request and evaluates its formula, which has been read. -/
def rollAndEvaluate (request : Request) (formula : Formula) (source : Source) : Execution :=
  match Value.rollAll request.values source with
  | (some error, values, after) =>
    ⟨some (.roll error), { request with values := values }, after⟩
  | (none, values, after) =>
    let request := { request with values := values }
    match formula.evaluate (Value.scope values) with
    | .ok number => ⟨none, { request with result := some number }, after⟩
    | .error (.reported error) => ⟨none, request.fail (.formula error), after⟩
    | .error (.broken breakdown) => ⟨some (.broken breakdown), request, after⟩

/-- Executes the request. A request with an error is left alone. -/
def execute (request : Request) (source : Source) : Execution :=
  if !request.isValid then ⟨none, request, source⟩
  else
    match request.groupFaults with
    | [] =>
      match Formula.compile request.formula with
      | .error error => ⟨none, request.fail (.formula error), source⟩
      | .ok formula => request.rollAndEvaluate formula source
    | faults => ⟨none, request.fail (.invalidGroups faults), source⟩

end Request

end DiceNotation
