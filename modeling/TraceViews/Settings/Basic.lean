import TraceViews.Console.Line
import TraceViews.Feed.Source
import TraceViews.Template.Reader

/-!
# Settings

What a run of the program is told: by a settings file, by the command line, or by neither.
-/

namespace TraceViews

/-- The settings of a run. Times are in milliseconds. -/
structure Settings where
  tick : Nat
  shortestDelay : Nat
  longestDelay : Nat
  backlog : Nat
  seed : Option Nat
  views : Nat
  filter : Option String
  template : String
  output : Console.OutputForm
  logLevel : String
  deriving DecidableEq, Repr

/-- Why settings make no sense together. -/
inductive SettingsFault where
  | zeroTick
  | delaysCrossed (shortest longest : Nat)
  | noViews
  deriving DecidableEq, Repr

namespace SettingsFault

def message : SettingsFault → String
  | zeroTick => "tick_ms must be greater than zero"
  | delaysCrossed shortest longest =>
    "jitter_min_ms (" ++ Text.showNat shortest ++ ") must not exceed jitter_max_ms ("
      ++ Text.showNat longest ++ ")"
  | noViews => "at least one view is required"

end SettingsFault

namespace Settings

/-- The settings where nothing is given. -/
def standard : Settings where
  tick := 500
  shortestDelay := 50
  longestDelay := 100
  backlog := 100
  seed := none
  views := 2
  filter := none
  template := Template.standard.source
  output := .text
  logLevel := "warn"

/-- The delays between the records of the feed. -/
def pace (s : Settings) : Pace := ⟨s.shortestDelay, s.longestDelay⟩

/-- The first fault of the settings, if there is one. -/
def fault? (s : Settings) : Option SettingsFault :=
  if s.tick = 0 then some .zeroTick
  else if s.shortestDelay > s.longestDelay then
    some (.delaysCrossed s.shortestDelay s.longestDelay)
  else if s.views = 0 then some .noViews
  else none

theorem views_pos_of_fault?_eq_none {s : Settings} (h : s.fault? = none) : 0 < s.views := by
  grind [fault?]

end Settings

end TraceViews
