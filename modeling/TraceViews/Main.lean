import Std.Time.DateTime.Timestamp
import TraceViews.Program

/-!
# The program

Runs a console on the standard input and output. Lines are read as they come; in between the feed
goes on with the time, and every so often the console shows what has arrived. At the end of the
input the program goes on showing; `quit` ends it.
-/

namespace TraceViews

/-- The wall clock's time, in microseconds. -/
def wallTime : IO Timestamp := do
  return Int64.ofInt ((← Std.Time.Timestamp.now).toNanosecondsSinceUnixEpoch.toInt / 1000)

/-- The fault behind a failure to read a file. Some failures carry the operating system's number
negated, in 32 bits. -/
def faultOf (e : IO.Error) : FileFault :=
  let ofCode (code : UInt32) : FileFault :=
    (FileFault.ofNumber? code.toNat <|> FileFault.ofNumber? (-code).toNat).getD .broken
  match e with
  | .noFileOrDirectory _ code _ => ofCode code
  | .inappropriateType _ code _ => ofCode code
  | .invalidArgument _ code _ => ofCode code
  | .permissionDenied _ code _ => ofCode code
  | .noSuchThing _ code _ => ofCode code
  | .userError _ => .notText
  | _ => .broken

/-- The content of a file, or why it cannot be read. -/
def readDocument (path : String) : IO (Except FileFault String) := do
  try return .ok (← IO.FS.readFile path) catch e => return .error (faultOf e)

/-- The settings that the arguments and the file that they name give. -/
def readSettings (args : List String) : IO (Except RunError Settings) := do
  match Arguments.parse args with
  | .error e => return .error (.usage e)
  | .ok arguments =>
    let document ← readDocument (arguments.config.getD "")
    return Settings.ofRun arguments fun _ => document

/-- A number that nobody chose. -/
def drawSeed : IO Nat := do
  return (← IO.getRandomBytes 8).foldl (fun seed byte => 256 * seed + byte.toNat) 0

/-- A run in progress: its console, the line that is waited for, and when the feed last went on and
the next tick is due, in milliseconds. -/
structure Session (n : Nat) where
  console : Console n
  line : Option (Task (Except IO.Error String))
  fed : Nat
  due : Nat

namespace Session

variable {n : Nat}

/-- The time, in milliseconds. -/
def time : IO Nat := IO.monoMsNow

/-- Prints the lines of a step. -/
def printLines (form : Console.OutputForm) (lines : List Console.Line) : IO Unit := do
  let stdout ← IO.getStdout
  stdout.putStr (String.join (lines.map (Console.Line.print form)))
  stdout.flush

/-- Begins to wait for a line. -/
def awaitLine : IO (Task (Except IO.Error String)) := do
  IO.asTask (← IO.getStdin).getLine .dedicated

/-- Begins a run. -/
def begin (console : Console n) : IO (Session n) := do
  let now ← time
  return { console := console.start, line := some (← awaitLine), fed := now, due := now }

/-- Lets the feed go on to the present. -/
def feed (s : Session n) : IO (Session n) := do
  let now ← time
  return { s with console := s.console.advance (now - s.fed) (← wallTime), fed := now }

/-- The line that was waited for, once it is there; the empty line is the end of the input. -/
def receivedLine? (s : Session n) : IO (Option String) := do
  match s.line with
  | none => return none
  | some task =>
    if ← IO.hasFinished task then return some (← IO.ofExcept task.get) else return none

/-- Takes the next step that is due: a tick, or the answer to a line. -/
def step (tick : Nat) (s : Session n) :
    IO (Except StoreError (Option (Console.Step n) × Session n)) := do
  let s ← s.feed
  if s.due ≤ s.fed then
    return s.console.tick.map fun step => (some step, { s with due := s.due + tick })
  match ← s.receivedLine? with
  | none => return .ok (none, s)
  | some "" => return .ok (none, { s with line := none })
  | some line =>
    match s.console.answer line with
    | .error e => return .error e
    | .ok step =>
      let next ← if step.flow = .quit then pure none else some <$> awaitLine
      return .ok (some step, { s with line := next })

/-- Goes on until a step ends the run. -/
partial def run (form : Console.OutputForm) (tick : Nat) (s : Session n) :
    IO (Except StoreError Unit) := do
  match ← s.step tick with
  | .error e => return .error e
  | .ok (none, s) =>
    IO.sleep 1
    run form tick s
  | .ok (some step, s) =>
    printLines form step.lines
    if step.flow = .quit then return .ok () else run form tick { s with console := step.console }

end Session

/-- A run on the arguments, and why it ends before its input does. -/
def runProgram (args : List String) : IO (Except RunError Unit) := do
  match ← readSettings args with
  | .error e => return .error e
  | .ok settings =>
    let seed ← match settings.seed with
      | some seed => pure seed
      | none => drawSeed
    match settings.openConsole (.make (.seeded seed) (.wall (← wallTime))) with
    | .error e => return .error e
    | .ok console =>
      let session ← Session.begin console
      return (← session.run settings.output settings.tick).mapError .broken

end TraceViews

/-- Runs the program; prints why it fails, where it does. -/
def main (args : List String) : IO UInt32 := do
  match ← TraceViews.runProgram args with
  | .ok () => return 0
  | .error e =>
    let outcome := TraceViews.Outcome.ofError e
    IO.print outcome.output
    for line in outcome.diagnostic do IO.eprintln line
    return UInt32.ofNat outcome.code
