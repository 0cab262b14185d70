import TraceViews.Settings.Arguments

/-!
# The help text

What the program says about its options: a line for each, in two columns.
-/

namespace TraceViews

namespace Setting

/-- What a setting is for. -/
def purpose : Setting → String
  | config => "TOML config file"
  | tick => "Drain interval in milliseconds"
  | shortestDelay => "Shortest delay between generated records, in milliseconds"
  | longestDelay => "Longest delay between generated records, in milliseconds"
  | backlog => "Records generated before streaming starts"
  | seed => "Seed for reproducible record generation"
  | views => "Number of independent views"
  | filter => "Initial filter for view 0, e.g. 'module eq \"net\"'"
  | template => "Display format, e.g. '" ++ Template.standard.source ++ "'"
  | output => "Output format [possible values: text, json]"
  | logLevel => "Log level"

/-- The word that stands for a setting's value, given the long name of its option. -/
def placeholder (name : String) : Setting → String
  | config => "PATH"
  | _ => String.ofList (name.toList.map fun c => if c = '-' then '_' else c.toUpper)

end Setting

namespace Flag

/-- What an option is for. -/
def purpose : Flag → String
  | setting s => s.purpose
  | help => "Print help"
  | version => "Print version"

/-- The letter of an option, if it has one. -/
def letter? (flag : Flag) : Option Char :=
  (shortNames.find? fun entry => entry.2 = flag).map Prod.fst

/-- How an option is written: its letter and its long name, with a word for the value. -/
def usage (name : String) (flag : Flag) : String :=
  let letter :=
    match flag.letter? with
    | some c => "  -" ++ String.singleton c ++ ", --"
    | none => "      --"
  match flag with
  | setting s => letter ++ name ++ " <" ++ s.placeholder name ++ ">"
  | _ => letter ++ name

/-- The width of the first column. -/
def usageWidth : Nat :=
  longNames.foldl (fun width entry => max width (usage entry.1 entry.2).length) 0

/-- The lines of the help text. -/
def helpLines : List String :=
  ["Filter a live trace stream with a small query language and keep views in time sync", "",
    "Usage: tracesync [OPTIONS]", "", "Options:"] ++
  longNames.map fun (name, flag) =>
    String.ofList (pad .left usageWidth (usage name flag).toList) ++ "  " ++ flag.purpose

end Flag

end TraceViews
