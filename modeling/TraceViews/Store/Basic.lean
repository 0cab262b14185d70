import TraceViews.Broadcast
import TraceViews.Store.Nearest

/-!
# The trace store

Records wait in a queue until a drain moves all of them at once behind the visible records. Every
change of the visible records raises the generation by one and is sent to the observers.
-/

namespace TraceViews

/-- A half-open range of positions. -/
structure Span where
  start : Nat
  stop : Nat
  deriving DecidableEq, Repr

/-- A change of the visible records. -/
inductive Change where
  | inserted (span : Span)
  | cleared (removed : Nat)
  deriving DecidableEq, Repr

/-- The number of changes that are kept for observers. -/
def changeCapacity : Nat := 1024

/-- A trace store: the visible records in order of arrival, the records that wait for the next
drain, the number of changes so far, and the broadcast of the changes. The changes are counted
without end; who is shown their number is shown it in 64 bits (`Store.counter`). -/
structure Store where
  records : Array Record
  queue : Array Record
  generation : Nat
  changes : Broadcast changeCapacity Change

namespace Store

/-- A store without records. -/
def empty : Store := ⟨#[], #[], 0, .empty⟩

/-- The generation as a counter of 64 bits shows it: it begins anew after the last number. -/
def counter (s : Store) : UInt64 := .ofNat s.generation

/-- Queues a record for the next drain. -/
def enqueue (s : Store) (r : Record) : Store := { s with queue := s.queue.push r }

/-- Counts and announces a change of the visible records. -/
def changed (s : Store) (records : Array Record) (change : Change) : Store :=
  { s with records, generation := s.generation + 1, changes := s.changes.send change }

/-- Moves every queued record behind the visible ones, and gives their positions; nothing happens
where nothing is queued. -/
def drain (s : Store) : Option Span × Store :=
  if s.queue.isEmpty then (none, s)
  else
    let records := s.records ++ s.queue
    let span := ⟨s.records.size, records.size⟩
    (some span, { s.changed records (.inserted span) with queue := #[] })

/-- Removes every visible record; the queue stays as it is. -/
def clear (s : Store) : Store := s.changed #[] (.cleared s.records.size)

/-- The visible record at a position. -/
def recordAt (s : Store) (index : Nat) : Except StoreError Record :=
  match s.records[index]? with
  | some r => .ok r
  | none => .error (.outOfRange index s.records.size)

/-- The position of the last visible record at or before a point in time. -/
def nearest (s : Store) (target : Timestamp) : Except StoreError Nat :=
  nearestIndex (n := s.records.size) (fun i => s.records[i].timestamp) target

end Store

end TraceViews
