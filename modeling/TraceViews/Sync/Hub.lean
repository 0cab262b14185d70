import TraceViews.Broadcast
import TraceViews.Record

/-!
# Keeping views at one point in time

A hub passes the points in time that its participants select on to the others. A participant asks
for the latest one; it never hears of its own, nor of those from before it joined.
-/

namespace TraceViews

/-- The number of selections that a hub keeps for its participants. -/
def selectionCapacity : Nat := 64

/-- A point in time, selected by the participant with the given identity. -/
structure Selection where
  source : Nat
  timestamp : Timestamp
  deriving DecidableEq, Repr

/-- A hub: its number, how many participants have joined, and the selections. -/
structure Hub where
  number : Nat
  joined : Nat
  selections : Broadcast selectionCapacity Selection

/-- A participant: the number of its hub, its identity there, and its place in the selections. -/
structure Participant where
  hub : Nat
  id : Nat
  cursor : Cursor
  deriving DecidableEq, Repr

namespace Participant

/-- The name of a participant in its hub. -/
def name (p : Participant) : String := "view-" ++ Text.showNat p.id

end Participant

namespace Hub

/-- A hub that nobody has joined. -/
def empty (number : Nat) : Hub := ⟨number, 0, .empty⟩

/-- Adds a participant. Identities are given out in order, from zero. -/
def join (h : Hub) : Participant × Hub :=
  (⟨h.number, h.joined, h.selections.subscribe⟩, { h with joined := h.joined + 1 })

/-- Tells the other participants of a selection. -/
def publish (h : Hub) (p : Participant) (timestamp : Timestamp) : Hub :=
  { h with selections := h.selections.send ⟨p.id, timestamp⟩ }

/-- The latest selection of another participant since the last time that this one asked. -/
def latest (h : Hub) (p : Participant) : Option Timestamp × Participant :=
  let d := h.selections.deliver p.cursor
  let others := d.values.filter fun selection => selection.source != p.id
  (others.getLast?.map Selection.timestamp, { p with cursor := d.next })

end Hub

end TraceViews
