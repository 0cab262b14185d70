import TraceViews.View.Basic

/-!
# Workspaces

A workspace holds one store with everything that hangs on it: the observers of its changes, the
views, the hubs and their participants. All of them are numbered in the order in which they came.
The store lives as long as somebody holds it, be it the workspace or a view; after that its sender
and its observers find it closed.
-/

namespace TraceViews

/-- A store with its observers, hubs, participants and views. A participant that has left or has
moved into a view, and a view that was dropped, leave their number empty. -/
structure Workspace where
  store : Store
  held : Bool
  observers : Array Cursor
  hubs : Array Hub
  participants : Array (Option Participant)
  views : Array (Option View)

namespace Workspace

/-- An empty store, held by the workspace, and one hub. -/
def initial : Workspace := ⟨.empty, true, #[], #[.empty 0], #[], #[]⟩

/-- Whether nobody holds the store any longer. -/
def closed (w : Workspace) : Bool := !w.held && w.views.all Option.isNone

/-! ## The store -/

/-- Changes the store. -/
def modifyStore (w : Workspace) (f : Store → Store) : Workspace := { w with store := f w.store }

/-- Moves the queue behind the visible records. -/
def drain (w : Workspace) : Option Span × Workspace :=
  let (span, store) := w.store.drain
  (span, { w with store })

/-- Sends a record through a sender, which the end of the store closes. -/
def send (w : Workspace) (r : Record) : Except StoreError Workspace :=
  if w.closed then .error .closed else .ok (w.modifyStore (·.enqueue r))

/-- Lets go of the store. -/
def release (w : Workspace) : Workspace := { w with held := false }

/-- Adds an observer of the changes from now on. -/
def subscribe (w : Workspace) : Nat × Workspace :=
  (w.observers.size, { w with observers := w.observers.push w.store.changes.subscribe })

/-- Gives an observer the changes that wait for it. -/
def poll (w : Workspace) (observer : Nat) : Option (Delivery Change × Workspace) := do
  let d := w.store.changes.deliver (← w.observers[observer]?)
  return (d, { w with observers := w.observers.setIfInBounds observer d.next })

/-! ## Hubs and participants -/

/-- Adds a hub. -/
def openHub (w : Workspace) : Nat × Workspace :=
  (w.hubs.size, { w with hubs := w.hubs.push (.empty w.hubs.size) })

/-- The participant of a number. -/
def participant? (w : Workspace) (n : Nat) : Option Participant := w.participants[n]?.join

/-- Changes or removes a participant. -/
def setParticipant (w : Workspace) (n : Nat) (p : Option Participant) : Workspace :=
  { w with participants := w.participants.setIfInBounds n p }

/-- Puts a hub back in its place. -/
def setHub (w : Workspace) (h : Hub) : Workspace :=
  { w with hubs := w.hubs.setIfInBounds h.number h }

/-- Adds a participant to a hub. -/
def join (w : Workspace) (hub : Nat) : Option (Nat × Participant × Workspace) := do
  let (p, h) := (← w.hubs[hub]?).join
  return (w.participants.size, p, { w.setHub h with participants := w.participants.push (some p) })

/-- Publishes a point in time for a participant. -/
def publish (w : Workspace) (n : Nat) (timestamp : Timestamp) : Option Workspace := do
  let p ← w.participant? n
  return w.setHub ((← w.hubs[p.hub]?).publish p timestamp)

/-- Asks for the latest selection for a participant. -/
def latest (w : Workspace) (n : Nat) : Option (Option Timestamp × Workspace) := do
  let p ← w.participant? n
  let (timestamp, p) := (← w.hubs[p.hub]?).latest p
  return (timestamp, w.setParticipant n (some p))

/-- Drops a participant. -/
def leave (w : Workspace) (n : Nat) : Workspace := w.setParticipant n none

/-! ## Views -/

/-- Adds a view. -/
def openView (w : Workspace) : Nat × Workspace :=
  (w.views.size, { w with views := w.views.push (some (.ofStore w.store)) })

/-- The view of a number. -/
def view? (w : Workspace) (n : Nat) : Option View := w.views[n]?.join

/-- Changes a view. -/
def setView (w : Workspace) (n : Nat) (v : View) : Workspace :=
  { w with views := w.views.setIfInBounds n (some v) }

/-- Drops a view, and with it its hold on the store and its participant. -/
def dropView (w : Workspace) (n : Nat) : Workspace :=
  { w with views := w.views.setIfInBounds n none }

/-- Moves a participant into a view, in place of an earlier one. -/
def attach (w : Workspace) (view participant : Nat) : Option Workspace := do
  let v ← w.view? view
  let p ← w.participant? participant
  return (w.setView view (v.attach p)).leave participant

/-- Reads a view, whose rows are up to date from then on. -/
def readView {α : Type} (w : Workspace) (n : Nat) (f : View → Store → α) :
    Option (α × Workspace) := do
  let v := (← w.view? n).current w.store
  return (f v w.store, w.setView n v)

/-- Changes a view, if the change goes through. -/
def changeView {ε : Type} (w : Workspace) (n : Nat) (f : View → Store → Except ε View) :
    Option (Option ε × Workspace) := do
  match f (← w.view? n) w.store with
  | .ok v => return (none, w.setView n v)
  | .error e => return (some e, w)

/-- The hub that a view takes part in, or a hub without participants where it takes part in
none. -/
def hubOf (w : Workspace) (v : View) : Hub :=
  match v.participant with
  | none => .empty w.hubs.size
  | some p => w.hubs[p.hub]?.getD (.empty w.hubs.size)

/-- Selects a row of a view. -/
def selectRow (w : Workspace) (n row : Nat) :
    Option (Except StoreError Timestamp × Workspace) := do
  let v := (← w.view? n).current w.store
  let w := w.setView n v
  match v.select w.store (w.hubOf v) row with
  | .error e => return (.error e, w)
  | .ok (timestamp, hub) => return (.ok timestamp, w.setHub hub)

/-- Lets a view follow the latest selection of another participant. -/
def followView (w : Workspace) (n : Nat) : Option (Option Nat × Workspace) := do
  let v ← w.view? n
  let (row, v) := v.follow w.store (w.hubOf v)
  return (row, w.setView n v)

/-- Takes the notices of a view. -/
def takeNotices (w : Workspace) (n : Nat) : Option (List Notice × Workspace) := do
  let (notices, v) := (← w.view? n).takeNotices
  return (notices, w.setView n v)

end Workspace

end TraceViews
