import DiceNotation.Request.Execution

/-!
# Reporting a request

The outcome of a request is reported on one line (`Request.summary`) or with every die that was
rolled (`Request.details`). A request with an error is reported by the error alone.
-/

namespace DiceNotation

namespace Request

/-- The result as text, also before there is one. -/
def resultText (request : Request) : Text :=
  match request.result with
  | some number => number.text
  | none => "None".toList

/-- The line with the result. -/
def totalLine (request : Request) : Text :=
  "Total: ".toList ++ request.resultText

/-- The report on one line. -/
def summary (request : Request) : Text :=
  match request.error with
  | some error => error.message
  | none =>
    match request.label with
    | some label => request.totalLine ++ ' ' :: label
    | none => request.totalLine

/-- The lines of the detailed report. -/
def detailLines (request : Request) : List Text :=
  request.label.toList ++
    [request.totalLine, "Formula: ".toList ++ request.text, "Rolls:".toList] ++
    request.groups.map Group.describe

/-- The detailed report. -/
def details (request : Request) : Text :=
  match request.error with
  | some error => error.message
  | none => joinWith lineEnd request.detailLines

/-- The report, in detail or on one line. -/
def report (request : Request) (detailed : Bool) : Text :=
  if detailed then request.details else request.summary

end Request

end DiceNotation
