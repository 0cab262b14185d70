import TraceViews.Record

/-!
# Clocks

A clock stamps records. The counter is for reproducible runs; the wall clock holds the latest
reading that it was told of and never goes back behind it.
-/

namespace TraceViews

/-- A clock. -/
inductive Clock where
  | counter (next step : Timestamp)
  | wall (latest : Timestamp)
  deriving DecidableEq, Repr

namespace Clock

/-- A counter that begins at `start` and goes on by `step`; it stands still where that is negative.
At the end of the range it wraps around. -/
def counting (start step : Timestamp) : Clock := counter start (if step < 0 then 0 else step)

/-- A reading of the clock. -/
def read : Clock → Timestamp × Clock
  | counter next step => (next, counter (next + step) step)
  | wall latest => (latest, wall latest)

/-- The next `n` readings. -/
def readings (c : Clock) : Nat → List Timestamp
  | 0 => []
  | n + 1 => c.read.1 :: c.read.2.readings n

/-- Tells a wall clock the time. -/
def observe (now : Timestamp) : Clock → Clock
  | wall latest => wall (if latest < now then now else latest)
  | c => c

end Clock

end TraceViews
