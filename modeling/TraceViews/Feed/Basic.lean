import TraceViews.Feed.Source
import TraceViews.Store.Basic

/-!
# Feeding a store

A feed sends the records of a source into a store, one after each delay. Time moves only by
`advance`, which lets everything happen that falls due. While the feed is paused its delays go on,
but no record is made; where the store is gone, the task ends when it finds that out, and where no
delay can be drawn, it ends at once.
-/

namespace TraceViews

/-- A running task: its source and the time that its present delay ends at. -/
structure Feed.Task where
  source : Source
  due : Nat

/-- A feed: its pace, the time, the running task, whether it is paused, and how many records were
sent since the beginning. Times are in milliseconds. -/
structure Feed where
  pace : Pace
  now : Nat
  task : Option Feed.Task
  paused : Bool
  produced : Nat

namespace Feed.Task

/-- A task whose delay begins at `now`; there is none if no delay can be drawn. A delay takes at least
one millisecond. -/
def wait (pace : Pace) (now : Nat) (source : Source) : Option Task :=
  (source.delay pace).map fun (ms, source) => ⟨source, now + max ms 1⟩

theorem lt_due_of_wait {pace : Pace} {now : Nat} {source : Source} {task : Task}
    (h : wait pace now source = some task) : now < task.due := by
  obtain ⟨⟨ms, source'⟩, -, rfl⟩ := Option.map_eq_some_iff.1 h
  show now < now + max ms 1
  omega

/-- What a task does at the end of its delay: it sends a record, if it is not paused and the store is
there. Gives the source that it goes on with, if it does not end; the number of records sent; and the
store. -/
def act (paused : Bool) (task : Task) (produced : Nat) (store : Option Store) :
    Option Source × Nat × Option Store :=
  if paused then (some task.source, produced, store)
  else
    match store with
    | none => (none, produced, none)
    | some s =>
      let (r, source) := task.source.next
      (some source, produced + 1, some (s.enqueue r))

/-- Lets a task run up to a time; gives the task if it has not ended, the number of records sent,
and the store, which is `none` where it is gone. -/
def run (pace : Pace) (paused : Bool) (stop : Nat) (task : Task) (produced : Nat)
    (store : Option Store) : Option Task × Nat × Option Store :=
  if stop < task.due then (some task, produced, store)
  else
    let x := task.act paused produced store
    match _h : x.1.bind (wait pace task.due) with
    | none => (none, x.2)
    | some task => run pace paused stop task x.2.1 x.2.2
termination_by stop + 1 - task.due
decreasing_by
  obtain ⟨source, -, hwait⟩ := Option.bind_eq_some_iff.1 _h
  have := lt_due_of_wait hwait
  omega

end Feed.Task

namespace Feed

/-- A feed without a task. -/
def make (pace : Pace) : Feed := ⟨pace, 0, none, false, 0⟩

/-- Ends the task. -/
def stop (f : Feed) : Feed := { f with task := none }

/-- Begins a task, in place of the running one. -/
def start (f : Feed) (source : Source) : Feed := { f with task := Task.wait f.pace f.now source }

/-- Lets the task wait without making records. -/
def pause (f : Feed) : Feed := { f with paused := true }

def resume (f : Feed) : Feed := { f with paused := false }

def isRunning (f : Feed) : Bool := f.task.isSome

/-- Lets time pass. -/
def advance (f : Feed) (ms : Nat) (store : Option Store) : Feed × Option Store :=
  match f.task with
  | none => ({ f with now := f.now + ms }, store)
  | some task =>
    let (task, produced, store) := task.run f.pace f.paused (f.now + ms) f.produced store
    ({ f with now := f.now + ms, task, produced }, store)

/-- Tells the clock of the running task the time. -/
def observe (now : Timestamp) (f : Feed) : Feed :=
  { f with task := f.task.map fun t =>
      { t with source := { t.source with clock := t.source.clock.observe now } } }

end Feed

end TraceViews
