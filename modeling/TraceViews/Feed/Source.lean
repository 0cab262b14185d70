import TraceViews.Feed.Clock
import TraceViews.Feed.Dice

/-!
# Synthetic records

A source makes records for demonstration: a task between 2 and 5, one of the few modules chosen
when the source is built, the next reading of its clock, and a sentence of words from a fixed list.
-/

namespace TraceViews

/-- The words that modules are named after and sentences are made of. -/
def vocabulary : List String :=
  ["anchor", "beacon", "buffer", "cache", "channel", "cluster", "cursor", "daemon", "delta",
    "engine", "fiber", "frame", "gateway", "handle", "index", "journal", "kernel", "ledger",
    "matrix", "mirror", "module", "packet", "parser", "pipeline", "pointer", "queue", "relay",
    "router", "sampler", "scheduler", "segment", "signal", "socket", "spindle", "stream",
    "thread", "ticket", "timer", "vector", "worker"]

/-- The number of modules of a source. -/
def moduleCount : Nat := 5

/-- A source of records. -/
structure Source where
  dice : Dice
  clock : Clock
  modules : List String

/-- Bounds of the delays between records, in milliseconds. -/
structure Pace where
  shortest : Nat
  longest : Nat
  deriving DecidableEq, Repr

/-- The bounds that are left of these in 64 bits. -/
def Pace.cut (pace : Pace) : Pace := ⟨pace.shortest % UInt64.size, pace.longest % UInt64.size⟩

namespace Source

/-- A source with modules of its own choice. -/
def make (dice : Dice) (clock : Clock) : Source :=
  let (modules, dice) := dice.choose moduleCount vocabulary
  { dice, clock, modules }

/-- A word of a sentence. -/
def word (dice : Dice) : String × Dice :=
  let (w, dice) := dice.pick vocabulary
  (w.getD "trace", dice)

/-- As many words as asked for. -/
def words : Nat → Dice → List String × Dice
  | 0, dice => ([], dice)
  | n + 1, dice =>
    let (w, dice) := word dice
    let (ws, dice) := words n dice
    (w :: ws, dice)

/-- A word with its first letter in upper case. -/
def capitalize (w : String) : String :=
  match w.toList with
  | [] => ""
  | c :: cs => String.ofList (c.toUpper :: cs)

/-- Words as a sentence. -/
def punctuate : List String → String
  | [] => "."
  | w :: ws => " ".intercalate (capitalize w :: ws) ++ "."

/-- The next record. -/
def next (s : Source) : Record × Source :=
  let (task, dice) := s.dice.between 2 5
  let (module, dice) := dice.pick s.modules
  let (length, dice) := dice.between 4 12
  let (sentence, dice) := words length dice
  let (timestamp, clock) := s.clock.read
  (Record.make (Text.showNat task) (module.getD "") timestamp (punctuate sentence),
    { s with dice, clock })

/-- The next `n` records. -/
def take : Nat → Source → List Record × Source
  | 0, s => ([], s)
  | n + 1, s =>
    let (r, s) := s.next
    let (rs, s) := take n s
    (r :: rs, s)

/-- A delay within the bounds; the shortest one where the bounds leave no choice. A choice is made in
64 bits, to which the bounds are cut down; there is none where they have changed places by that. -/
def delay (pace : Pace) (s : Source) : Option (Nat × Source) :=
  if pace.longest ≤ pace.shortest then some (pace.shortest, s)
  else
    let pace := pace.cut
    if pace.shortest ≤ pace.longest then
      let (ms, dice) := s.dice.between pace.shortest pace.longest
      some (ms, { s with dice })
    else none

end Source

end TraceViews
