import TraceViews.Console.Basic
import TraceViews.FileTree
import TraceViews.Settings.Help

/-!
# A run of the program

From the command line to the exit code: reading the settings, opening the console, and answering
the lines of the input.
-/

namespace TraceViews

open Console (Line)

/-- Why a run ends before its input does. -/
inductive RunError where
  | usage (e : UsageError)
  | unreadableFile (path : String) (fault : FileFault)
  | malformedFile (path : String)
  | unfit (fault : SettingsFault)
  | unopened (e : Console.OpenError)
  | broken (e : StoreError)
  deriving DecidableEq, Repr

namespace RunError

/-- What is printed on the standard output. -/
def output : RunError → List String
  | usage .helpRequested => Flag.helpLines
  | usage .versionRequested => ["tracesync 0.1.0"]
  | _ => []

def message : RunError → String
  | usage e => e.message
  | unreadableFile path fault =>
    "Failed to read config file '" ++ path ++ "': " ++ fault.message
  | malformedFile path => "Failed to parse config file '" ++ path ++ "'"
  | unfit fault => fault.message
  | unopened e => e.message
  | broken e => e.message

/-- What is printed on the standard error output; nothing where information was asked for. -/
def diagnostic? : RunError → Option String
  | usage .helpRequested => none
  | usage .versionRequested => none
  | usage e => some ("error: " ++ e.message)
  | e => some ("Error: " ++ e.message)

/-- The exit code: information that was asked for is no failure. -/
def exitCode : RunError → Nat
  | usage .helpRequested => 0
  | usage .versionRequested => 0
  | usage _ => 2
  | _ => 1

end RunError

namespace Settings

/-- The settings of a run; `read` gives the content of the file at a path. -/
def ofRun (arguments : Arguments) (read : String → Except FileFault String) :
    Except RunError Settings :=
  match arguments.config with
  | none => .ok (arguments.apply standard)
  | some path =>
    match read path with
    | .error fault => .error (.unreadableFile path fault)
    | .ok document =>
      match ofDocument? document with
      | none => .error (.malformedFile path)
      | some settings => .ok (arguments.apply settings)

/-- Opens the console of a run. -/
def openConsole (s : Settings) (source : Source) : Except RunError (Console s.views) :=
  match h : s.fault? with
  | some fault => .error (.unfit fault)
  | none =>
    match Console.make s (views_pos_of_fault?_eq_none h) source with
    | .error e => .error (.unopened e)
    | .ok c => .ok c

end Settings

namespace Console

variable {n : Nat}

/-- Answers a line of the input; blank ones are skipped. -/
def answer (c : Console n) (line : String) : Except StoreError (Step n) :=
  if Text.allBlank line.toList then c.prints [] else c.enter line

/-- Answers the lines of the input up to the one that ends the run. -/
def answerAll (c : Console n) : List String → Except StoreError (List Line)
  | [] => .ok []
  | line :: lines => do
    let step ← c.answer line
    if step.flow = .quit then return step.lines
    return step.lines ++ (← step.console.answerAll lines)

end Console

/-- What a run leaves behind: its exit code, and the texts on its standard output and its standard
error output. -/
structure Outcome where
  code : Nat
  output : String
  diagnostic : Option String
  deriving DecidableEq, Repr

namespace Outcome

/-- The outcome of a run that ended with an error, after printing some text. -/
def ofError (e : RunError) : Outcome :=
  ⟨e.exitCode, String.join (e.output.map (· ++ "\n")), e.diagnostic?⟩

/-- The outcome of a run on the given arguments and lines of input at a place in a file tree, with
the time standing still. -/
def ofRun (args lines : List String) (place : Place) (dice : Nat → Dice) (clock : Clock) :
    Outcome :=
  let run : Except RunError String := do
    let arguments ← (Arguments.parse args).mapError .usage
    let settings ← Settings.ofRun arguments place.read
    let console ← settings.openConsole (.make (dice (settings.seed.getD 0)) clock)
    let printed ← (console.start.answerAll lines).mapError .broken
    return String.join (printed.map (Line.print settings.output))
  match run with
  | .error e => ofError e
  | .ok output => ⟨0, output, none⟩

end Outcome

end TraceViews
