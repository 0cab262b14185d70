import TraceViews.Record
import TraceViews.Text.Blank

/-!
# Console commands

A line of the console names a command by its first word; what follows is the command's argument.
White space around a line and around an argument does not count. Commands without an argument take
no notice of what follows their name.
-/

namespace TraceViews.Console

/-- A command with its argument. -/
inductive Command where
  | view (number : Nat)
  | filter (text : Option String)
  | template (text : String)
  | select (row : Nat)
  | goto (timestamp : Timestamp)
  | list (start count : Nat)
  | count
  | follow (on : Bool)
  | pause
  | resume
  | clear
  | help
  | quit
  deriving DecidableEq, Repr

/-- The number of rows that are listed where none is given. -/
def defaultListCount : Nat := 20

/-- The name of a command. -/
inductive Verb where
  | view
  | filter
  | template
  | select
  | goto
  | list
  | count
  | follow
  | pause
  | resume
  | clear
  | help
  | quit
  deriving DecidableEq, Repr

namespace Verb

/-- The words for the commands. -/
def spellings : List (String × Verb) :=
  [("view", view), ("filter", filter), ("format", template), ("select", select), ("goto", goto),
    ("show", list), ("count", count), ("follow", follow), ("pause", pause), ("resume", resume),
    ("clear", clear), ("help", help), ("?", help), ("quit", quit), ("exit", quit)]

/-- The command that a word names. -/
def ofSpelling? (s : String) : Option Verb := spellings.lookup s

end Verb

/-- A numeric argument, as messages name it. -/
inductive Quantity where
  | viewNumber
  | row
  | timestamp
  | startRow
  | rowCount
  deriving DecidableEq, Repr

namespace Quantity

def name : Quantity → String
  | viewNumber => "view number"
  | row => "row"
  | timestamp => "timestamp"
  | startRow => "start row"
  | rowCount => "row count"

end Quantity

/-- Why a line is no command. -/
inductive CommandError where
  | empty
  | unknown (name : String)
  | missing (what : Quantity)
  | invalid (what : Quantity) (text : String) (cause : Text.NumberFault)
  | missingTemplate
  | surplusArgument
  | neitherOnNorOff (text : String)
  deriving DecidableEq, Repr

namespace CommandError

def message : CommandError → String
  | empty => "empty command"
  | unknown name => "unknown command '" ++ name ++ "' (try 'help')"
  | missing what => "missing " ++ what.name
  | invalid what text cause => "invalid " ++ what.name ++ " '" ++ text ++ "': " ++ cause.message
  | missingTemplate => "format needs a template"
  | surplusArgument => "show takes at most two arguments"
  | neitherOnNorOff text => "follow expects 'on' or 'off', got '" ++ text ++ "'"

end CommandError

/-- Reads a numeric argument. -/
def readQuantity {α : Type} (read : List Char → Except Text.NumberFault α) (what : Quantity)
    (cs : List Char) : Except CommandError α :=
  if cs.isEmpty then .error (.missing what)
  else
    match read cs with
    | .ok n => .ok n
    | .error cause => .error (.invalid what (String.ofList cs) cause)

namespace Command

/-- The arguments of a listing: the first row and, if it is given, the number of rows. -/
def listOfWords (words : List (List Char)) : Except CommandError Command := do
  let start ← readQuantity Text.readCount .startRow (words.headD [])
  let count ←
    match words[1]? with
    | none => pure defaultListCount
    | some word => readQuantity Text.readCount .rowCount word
  if words.length > 2 then .error .surplusArgument
  else .ok (list start count)

/-- The command of a name and an argument. -/
def ofVerb (verb : Verb) (argument : List Char) : Except CommandError Command :=
  match verb with
  | .view => (readQuantity Text.readCount .viewNumber argument).map view
  | .filter =>
    .ok (filter (if argument.isEmpty then none else some (String.ofList argument)))
  | .template =>
    if argument.isEmpty then .error .missingTemplate else .ok (template (String.ofList argument))
  | .select => (readQuantity Text.readCount .row argument).map select
  | .goto => (readQuantity Text.readInt64 .timestamp argument).map goto
  | .list => listOfWords (Text.words argument)
  | .count => .ok count
  | .follow =>
    if argument = "on".toList then .ok (follow true)
    else if argument = "off".toList then .ok (follow false)
    else .error (.neitherOnNorOff (String.ofList argument))
  | .pause => .ok pause
  | .resume => .ok resume
  | .clear => .ok clear
  | .help => .ok help
  | .quit => .ok quit

/-- Reads a line. -/
def parse (line : String) : Except CommandError Command :=
  let (name, argument) := Text.splitFirst (Text.trim line.toList)
  match Verb.ofSpelling? (String.ofList name) with
  | some verb => ofVerb verb (Text.trim argument)
  | none => if name.isEmpty then .error .empty else .error (.unknown (String.ofList name))

end Command

/-- The commands, explained line by line. -/
def helpLines : List String :=
  ["commands:",
    "  view N               make view N active",
    "  filter EXPR          filter the active view, e.g. filter module eq \"net\"",
    "  filter               remove the active view's filter",
    "  format TEMPLATE      set the display format, e.g. format "
      ++ "[\x7btimestamp\x7d] \x7bmessage\x7d",
    "  select ROW           select a row and sync the other views to its time",
    "  goto TS              store index nearest to a timestamp",
    "  show START [COUNT]   print rows of the active view",
    "  count                row counts of the store and every view",
    "  follow on|off        print new rows of the active view as they arrive",
    "  pause | resume       control the producer",
    "  clear                remove every record from the store",
    "  quit                 exit"]

end TraceViews.Console
