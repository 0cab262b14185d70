import TraceViews.Settings.Basic
import TraceViews.Settings.Toml

/-!
# The settings file

The keys of the settings file and their values. A key that is not known, a key given twice, and a
value of another kind than the setting takes are refused; a key that is not given keeps its
setting.
-/

namespace TraceViews.Settings

open Toml (Item)

/-- The form of output of a name. -/
def outputForm? (s : String) : Option Console.OutputForm :=
  if s = "text" then some .text else if s = "json" then some .json else none

/-- A setting that is a count. -/
def count? : Toml.Value → Option Nat
  | .integer n => if 0 ≤ n then some n.toNat else none
  | _ => none

/-- A setting that is a text. -/
def text? : Toml.Value → Option String
  | .text s => some s
  | _ => none

/-- A setting that is a choice: its name, or a table with the name as its one, empty member. -/
def choice? : Toml.Value → Option String
  | .text s => some s
  | .choice member => some member
  | _ => none

/-- Gives a setting the value of its key. -/
def assign (s : Settings) (key : String) (value : Toml.Value) : Option Settings :=
  match key with
  | "tick_ms" => (count? value).map fun tick => { s with tick }
  | "jitter_min_ms" => (count? value).map fun shortestDelay => { s with shortestDelay }
  | "jitter_max_ms" => (count? value).map fun longestDelay => { s with longestDelay }
  | "backlog" => (count? value).map fun backlog => { s with backlog }
  | "seed" => (count? value).map fun seed => { s with seed := some seed }
  | "views" => (count? value).map fun views => { s with views }
  | "filter" => (text? value).map fun filter => { s with filter := some filter }
  | "format" => (text? value).map fun template => { s with template }
  | "output" => (choice? value >>= outputForm?).map fun output => { s with output }
  | "log_level" => (text? value).map fun logLevel => { s with logLevel }
  | _ => none

/-- The assignments of a document, in order. A table under headers or dotted keys is taken for a
choice where it has the form of one. -/
def assignments? : List Item → Option (List (String × Toml.Value))
  | [] => some []
  | .assignment [] [key] value :: items => (assignments? items).map ((key, value) :: ·)
  | .assignment [] [key, member] .empty :: items =>
    (assignments? items).map ((key, .choice member) :: ·)
  | [.header [key], .assignment [_] [member] .empty] => some [(key, .choice member)]
  | [.header [key, member]] => some [(key, .choice member)]
  | [.header [key], .header [key₂, member]] =>
    if key = key₂ then some [(key, .choice member)] else none
  | [.header [key, member], .header [key₂]] =>
    if key = key₂ then some [(key, .choice member)] else none
  | _ => none

/-- The settings of a document; `none` where it is no settings file. -/
def ofDocument? (document : String) : Option Settings := do
  let pairs ← Toml.parse? document >>= assignments?
  if (pairs.map Prod.fst).Nodup then
    pairs.foldlM (fun s pair => s.assign pair.1 pair.2) standard
  else none

end TraceViews.Settings
