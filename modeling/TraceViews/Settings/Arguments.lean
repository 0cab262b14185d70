import TraceViews.Settings.File

/-!
# The command line

Options of the command line override the settings of the file. An option's value stands in the same
argument, behind an equals sign or, for a short option, directly behind the letter, or it is the
next argument. A value of the first kind is looked at when it is met; one of the second kind only
when the next option or the end is met, so an unknown argument behind it is found first.
-/

namespace TraceViews

/-- The options that take a value. -/
inductive Setting where
  | config
  | tick
  | shortestDelay
  | longestDelay
  | backlog
  | seed
  | views
  | filter
  | template
  | output
  | logLevel
  deriving DecidableEq, Repr

/-- An option: one with a value, or a request for information. -/
inductive Flag where
  | setting (s : Setting)
  | help
  | version
  deriving DecidableEq, Repr

namespace Flag

/-- The long names of the options. -/
def longNames : List (String × Flag) :=
  [("config", setting .config), ("tick-ms", setting .tick),
    ("jitter-min-ms", setting .shortestDelay), ("jitter-max-ms", setting .longestDelay),
    ("backlog", setting .backlog), ("seed", setting .seed), ("views", setting .views),
    ("filter", setting .filter), ("format", setting .template), ("output", setting .output),
    ("log-level", setting .logLevel), ("help", help), ("version", version)]

/-- The letters of the options. -/
def shortNames : List (Char × Flag) :=
  [('c', setting .config), ('f', setting .filter), ('h', help), ('V', version)]

end Flag

/-- Why the command line is not acted upon. -/
inductive UsageError where
  | unknownArgument
  | invalidNumber
  | invalidValue
  | repeatedOption
  | unneededValue
  | helpRequested
  | versionRequested
  deriving DecidableEq, Repr

namespace UsageError

def message : UsageError → String
  | unknownArgument => "unexpected argument"
  | invalidNumber => "invalid number"
  | invalidValue => "missing or invalid value"
  | repeatedOption => "an option is given more than once"
  | unneededValue => "a value for an option that takes none"
  | helpRequested => "help is asked for"
  | versionRequested => "the version is asked for"

end UsageError

/-- What the command line says. -/
structure Arguments where
  config : Option String
  tick : Option Nat
  shortestDelay : Option Nat
  longestDelay : Option Nat
  backlog : Option Nat
  seed : Option Nat
  views : Option Nat
  filter : Option String
  template : Option String
  output : Option Console.OutputForm
  logLevel : Option String
  deriving DecidableEq, Repr

namespace Arguments

/-- Nothing said. -/
def none : Arguments :=
  ⟨.none, .none, .none, .none, .none, .none, .none, .none, .none, .none, .none⟩

/-- Gives an option a value, unless it has one. -/
def once {α : Type} (present : Option α) (value : Except UsageError α)
    (set : Option α → Arguments) : Except UsageError Arguments :=
  match present with
  | some _ => .error .repeatedOption
  | .none => value.map fun a => set (some a)

/-- A value that is a count. -/
def countValue (value : String) : Except UsageError Nat :=
  match Text.readCount value.toList with
  | .ok n => .ok n
  | .error _ => .error .invalidNumber

/-- A value that is a path, which must not be empty. -/
def pathValue (value : String) : Except UsageError String :=
  if value.isEmpty then .error .invalidValue else .ok value

/-- A value that is a form of output. -/
def outputValue (value : String) : Except UsageError Console.OutputForm :=
  match Settings.outputForm? value with
  | some form => .ok form
  | .none => .error .invalidValue

/-- Takes an option with its value. -/
def set (a : Arguments) (s : Setting) (value : String) : Except UsageError Arguments :=
  match s with
  | .config => once a.config (pathValue value) fun config => { a with config }
  | .tick => once a.tick (countValue value) fun tick => { a with tick }
  | .shortestDelay =>
    once a.shortestDelay (countValue value) fun shortestDelay => { a with shortestDelay }
  | .longestDelay =>
    once a.longestDelay (countValue value) fun longestDelay => { a with longestDelay }
  | .backlog => once a.backlog (countValue value) fun backlog => { a with backlog }
  | .seed => once a.seed (countValue value) fun seed => { a with seed }
  | .views => once a.views (countValue value) fun views => { a with views }
  | .filter => once a.filter (.ok value) fun filter => { a with filter }
  | .template => once a.template (.ok value) fun template => { a with template }
  | .output => once a.output (outputValue value) fun output => { a with output }
  | .logLevel => once a.logLevel (.ok value) fun logLevel => { a with logLevel }

/-- An option that stands before the place of reading: none, one that waits for its value, or one
with its value, which was the next argument. -/
inductive Pending where
  | nothing
  | waiting (s : Setting)
  | given (s : Setting) (value : String)

/-- Takes the option that stands before the place of reading. -/
def settle (a : Arguments) : Pending → Except UsageError Arguments
  | .nothing => .ok a
  | .waiting _ => .error .invalidValue
  | .given s value => a.set s value

/-- Takes an option, with the value that stands in the same argument, if any. -/
def meet (a : Arguments) (pending : Pending) (flag : Flag) (value : Option String) :
    Except UsageError (Arguments × Pending) :=
  match flag, value with
  | .setting s, .none => do return (← a.settle pending, .waiting s)
  | .setting s, some value => do return (← (← a.settle pending).set s value, .nothing)
  | .help, _ => do
    let _ ← a.settle pending
    .error .helpRequested
  | .version, _ => do
    let _ ← a.settle pending
    .error .versionRequested

/-- Takes a long option, without its dashes. -/
def meetLong (a : Arguments) (pending : Pending) (cs : List Char) :
    Except UsageError (Arguments × Pending) :=
  let name := String.ofList (cs.takeWhile (· != '='))
  let value :=
    match cs.dropWhile (· != '=') with
    | [] => .none
    | _ :: value => some (String.ofList value)
  match Flag.longNames.lookup name, value with
  | .none, _ => .error .unknownArgument
  | some (.setting s), value => a.meet pending (.setting s) value
  | some _, some _ => .error .unneededValue
  | some flag, .none => a.meet pending flag .none

/-- Takes a short option, without its dash. What follows the letter of an option with a value is
the value, an equals sign between them apart; the options without a value end the reading. -/
def meetShort (a : Arguments) (pending : Pending) (c : Char) (cs : List Char) :
    Except UsageError (Arguments × Pending) :=
  match Flag.shortNames.lookup c with
  | .none => .error .unknownArgument
  | some flag =>
    let value :=
      match cs with
      | [] => .none
      | '=' :: value => some (String.ofList value)
      | value => some (String.ofList value)
    a.meet pending flag value

/-- Reads the arguments from left to right. Behind two dashes there may be no more of them. -/
def readFrom (a : Arguments) (pending : Pending) : List String → Except UsageError Arguments
  | [] => a.settle pending
  | arg :: args =>
    match arg.toList with
    | ['-', '-'] => if args.isEmpty then a.settle pending else .error .unknownArgument
    | '-' :: '-' :: cs => do
      let (a, pending) ← a.meetLong pending cs
      a.readFrom pending args
    | '-' :: c :: cs => do
      let (a, pending) ← a.meetShort pending c cs
      a.readFrom pending args
    | _ =>
      match pending with
      | .waiting s => a.readFrom (.given s arg) args
      | _ => .error .unknownArgument

/-- Reads the arguments of the program. -/
def parse (args : List String) : Except UsageError Arguments := none.readFrom .nothing args

/-- The settings, overridden by what the command line says. -/
def apply (a : Arguments) (s : Settings) : Settings where
  tick := a.tick.getD s.tick
  shortestDelay := a.shortestDelay.getD s.shortestDelay
  longestDelay := a.longestDelay.getD s.longestDelay
  backlog := a.backlog.getD s.backlog
  seed := a.seed <|> s.seed
  views := a.views.getD s.views
  filter := a.filter <|> s.filter
  template := a.template.getD s.template
  output := a.output.getD s.output
  logLevel := a.logLevel.getD s.logLevel

end Arguments

end TraceViews
