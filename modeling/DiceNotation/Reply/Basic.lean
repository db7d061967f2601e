import DiceNotation.Reply.Canned
import DiceNotation.Request.Report

/-!
# Replies

A text is answered with the fixed reply to it, if it has one. Otherwise it is read as a request,
executed and reported (`answer`).
-/

namespace DiceNotation

/-- The reply to a text. -/
inductive Reply
  /-- A fixed reply. -/
  | canned (text : String)
  /-- The report of a request that was executed. -/
  | report (text : Text) (request : Request)
  deriving DecidableEq

/-- Answers a text, with the source of draws as it is left. A fault cuts the answer short. -/
def answer (text : Text) (detailed : Bool) (source : Source) : Except Fault Reply × Source :=
  match cannedReply? text with
  | some reply => (.ok (.canned reply), source)
  | none =>
    let execution := (Request.parse text).execute source
    match execution.fault with
    | some fault => (.error fault, execution.source)
    | none =>
      (.ok (.report (execution.request.report detailed) execution.request), execution.source)

end DiceNotation
