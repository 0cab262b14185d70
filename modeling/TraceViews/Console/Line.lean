import TraceViews.Json
import TraceViews.Template.Basic

/-!
# Lines of output

What the console says, as plain text or as a JSON object for each line.
-/

namespace TraceViews.Console

/-- The form of the output. -/
inductive OutputForm where
  | text
  | json
  deriving DecidableEq, Repr

/-- A line of output: a row of a view with its rendered text, a row that a view followed a selection
to, a notice, or an error. -/
inductive Line where
  | row (view row : Nat) (record : Record) (rendered : String)
  | synced (view row : Nat) (record : Record)
  | notice (message : String)
  | error (message : String)
  deriving DecidableEq, Repr

namespace Line

/-- A line as plain text. -/
def toText : Line → String
  | row view n _ rendered =>
    Text.showNat view ++ ":" ++ String.ofList (pad .right 6 (Text.natDigits n)) ++ " " ++ rendered
  | synced view n record =>
    "# view " ++ Text.showNat view ++ " synced to row " ++ Text.showNat n ++ " at "
      ++ Text.showInt64 record.timestamp ++ ": " ++ record.display
  | notice message => "# " ++ message
  | error message => "error: " ++ message

/-- A line as an object, with its keys in alphabetical order. -/
def toJson : Line → Json
  | row view n record _ =>
    .object [("event", .text "row"), ("record", record.toSortedJson), ("row", .integer n),
      ("view", .integer view)]
  | synced view n record =>
    .object [("event", .text "sync"), ("record", record.toSortedJson), ("row", .integer n),
      ("view", .integer view)]
  | notice message => .object [("event", .text "notice"), ("message", .text message)]
  | error message => .object [("event", .text "error"), ("message", .text message)]

/-- A line as it is printed, with the line feed behind it. -/
def print (form : OutputForm) (l : Line) : String :=
  match form with
  | .text => l.toText ++ "\n"
  | .json => l.toJson.render ++ "\n"

end Line

end TraceViews.Console
