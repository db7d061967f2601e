import DiceNotation.Request.Piece
import DiceNotation.Request.Value

/-!
# Requests

A request is a formula over values, such as `4d6k3 + 2`, with an optional label. The formula is kept
as segments, which are the slots of the values and the operators between them.

A request is read from text by scanning it for pieces (`Request.scan`); what follows the last one is
the label. A request without dice is refused, and so is one with an oversized constant.
-/

namespace DiceNotation

/-- Why a request has no result. -/
inductive RequestError
  /-- A constant has too many significant digits. -/
  | constantTooLarge
  /-- There is no dice group. -/
  | noDice
  /-- Some groups cannot be rolled; each is given in notation and with its fault. -/
  | invalidGroups (faults : List (Text × GroupError))
  /-- The formula has no result. -/
  | formula (error : FormulaError)
  deriving DecidableEq

/-- What ends a line. -/
def lineEnd : Text := ['\r', '\n']

/-- The line that reports the fault of a group. -/
def faultLine (fault : Text × GroupError) : Text :=
  '(' :: fault.1 ++ [')', ' '] ++ fault.2.message.toList

/-- The wording of the error. -/
def RequestError.message : RequestError → Text
  | .constantTooLarge => "Invalid roll: Constant is too large (max 1000 digits)".toList
  | .noDice => "Invalid roll: No dice to roll. Try help".toList
  | .invalidGroups faults =>
    joinWith lineEnd ("Invalid values:".toList :: faults.map faultLine)
  | .formula error => error.message.toList

/-- A request for a roll. -/
structure Request where
  /-- The slots and operators of the formula. -/
  segments : List Text := []
  /-- The values, in the order of their slots. -/
  values : List Value := []
  /-- What the request says about itself. -/
  label : Option Text := none
  /-- The result of the last successful execution. -/
  result : Option Number := none
  /-- The error that keeps the request from being executed. -/
  error : Option RequestError := none
  deriving DecidableEq

/-- The most significant digits of a constant. -/
def constantDigits : Nat := 1000

namespace Request

/-- Whether the request has no error. -/
def isValid (request : Request) : Bool :=
  request.error.isNone

/-- The dice groups of the request. -/
def groups (request : Request) : List Group :=
  request.values.filterMap Value.group?

/-- The formula of the request. -/
def formula (request : Request) : Text :=
  joinWith [' '] request.segments

/-- The notation of the value in a slot, or the segment itself if it is no slot of the request. -/
def segmentText (slots : List (Text × Value)) (segment : Text) : Text :=
  match slots.find? fun slot => slot.1 == segment with
  | some slot => slot.2.text
  | none => segment

/-- The request in notation: its formula with every slot replaced by its value. -/
def text (request : Request) : Text :=
  joinWith [' '] (request.segments.map (segmentText (Value.slots request.values)))

/-- Appends a value and its slot, which is named by the position of the value. A value belongs to
one request and to one slot of it: to append it twice is to append two values. -/
def addValue (request : Request) (value : Value) : Request :=
  { request with
    values := request.values ++ [value]
    segments := request.segments ++ [slotName request.values.length] }

/-- Appends an operator, one of the signs that notation has for them (`operatorChars`). -/
def addOperator (request : Request) (operator : Text) : Request :=
  { request with segments := request.segments ++ [operator] }

/-- Appends what a piece stands for, unless it is an oversized constant. -/
def addPiece? (request : Request) : Piece → Option Request
  | .dice lexeme modifiers =>
    some (request.addValue (.group (Group.assemble lexeme.count lexeme.faces modifiers)))
  | .constant digits =>
    (boundedValue? constantDigits digits).map fun n => request.addValue (.constant n)
  | .operator c => some (request.addOperator [c])

/-- Scans a text for pieces, on top of those the request has already, and returns the text behind
them. An oversized constant ends the scan. -/
def scan (request : Request) (text : Text) : Request × Text :=
  match _h : Piece.read? (skipSeparators text) with
  | none => (request, skipSeparators text)
  | some (piece, rest) =>
    match request.addPiece? piece with
    | some request => request.scan rest
    | none => ({ request with error := some .constantTooLarge }, rest)
termination_by text.length
decreasing_by
  have hlt := Piece.length_read?_lt _h
  have hle := (List.dropWhile_sublist isSeparator (l := text)).length_le
  exact Nat.lt_of_lt_of_le hlt hle

/-- The label that a text gives, if it is not blank. -/
def labelOf? (text : Text) : Option Text :=
  let label := strip text
  if label.isEmpty then none else some label

/-- Reads a request from text. -/
def parse (text : Text) : Request :=
  let (request, rest) := scan {} (strip text)
  let request := { request with label := labelOf? rest }
  if request.isValid && request.groups.isEmpty then { request with error := some .noDice }
  else request

end Request

end DiceNotation
