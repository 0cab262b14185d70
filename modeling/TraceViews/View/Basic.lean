import TraceViews.Filter.Compiled
import TraceViews.Store.Basic
import TraceViews.Sync.Hub
import TraceViews.Template.Reader
import TraceViews.Text.Blank

/-!
# Views of a store

A view shows the visible records that pass a filter, as numbered rows. The rows are kept with the
generation of the store that they were taken from, and taken anew where the store has moved on.
A view collects notices of what changed for whoever presents it: it compares the rows it last
reported with the changes that the store announced since.
-/

namespace TraceViews

/-- A notice of a change, in row numbers. After a reset every row may be another one. -/
inductive Notice where
  | inserted (span : Span)
  | removed (span : Span)
  | reset
  | scrollTo (row : Nat)
  deriving DecidableEq, Repr

/-- Why a filter was not installed. -/
inductive InstallError where
  | malformed (e : Filter.SyntaxError)
  | unbound (e : Filter.EvalError)
  | noSample
  deriving DecidableEq, Repr

namespace InstallError

def message : InstallError → String
  | malformed e => e.message
  | unbound e => e.message
  | noSample => "No records yet to validate the filter against"

/-- A text that is no filter cannot be installed. -/
def ofFilterError : FilterError → InstallError
  | .malformed e => malformed e
  | .unbound e => unbound e

end InstallError

/-- A row: a visible record with its position in the store. -/
structure Row where
  index : Nat
  record : Record
  deriving DecidableEq, Repr

/-- Whether a record is shown. One that the filter fails on is not. -/
def passes (filter : Option RecordFilter) (r : Record) : Bool :=
  match filter with
  | none => true
  | some f =>
    match f.accepts r with
    | .ok b => b
    | .error _ => false

/-- The rows of the records that pass a filter, in order. -/
def selectRows (filter : Option RecordFilter) (records : Array Record) : Array Row :=
  (records.toList.zipIdx.filterMap fun (r, i) =>
    if passes filter r then some ⟨i, r⟩ else none).toArray

/-- A view: the filter and the template; the rows with the generation they belong to; the number of
rows last reported and the place in the store's changes up to which they are; the notices not yet
taken; and the view's part in a hub. -/
structure View where
  filter : Option RecordFilter
  template : Template
  rows : Array Row
  rowsGeneration : Option Nat
  reported : Nat
  cursor : Cursor
  notices : Array Notice
  participant : Option Participant

namespace View

/-- Brings the rows up to date. -/
def current (v : View) (s : Store) : View :=
  if v.rowsGeneration = some s.generation then v
  else { v with rows := selectRows v.filter s.records, rowsGeneration := some s.generation }

/-- A view of every record, in the standard template. -/
def ofStore (s : Store) : View :=
  let v : View :=
    { filter := none, template := .standard, rows := #[], rowsGeneration := none, reported := 0
      cursor := s.changes.subscribe, notices := #[], participant := none }
  let v := v.current s
  { v with reported := v.rows.size }

/-! ## Reading -/

/-- The number of rows. -/
def rowCount (v : View) (s : Store) : Nat := (v.current s).rows.size

/-- The row of a number. -/
def row (v : View) (s : Store) (n : Nat) : Except StoreError Row :=
  match (v.current s).rows[n]? with
  | some row => .ok row
  | none => .error (.outOfRange n (v.rowCount s))

/-- The position in the store of a row. -/
def rowAt (v : View) (s : Store) (n : Nat) : Except StoreError Nat := (v.row s n).map Row.index

/-- The record of a row. -/
def record (v : View) (s : Store) (n : Nat) : Except StoreError Record := (v.row s n).map Row.record

/-- The record of a row in the form that the template gives it. -/
def data (v : View) (s : Store) (n : Nat) : Except StoreError String :=
  (v.record s n).map v.template.render

/-- The last row at or before a point in time. -/
def nearestRow (v : View) (s : Store) (target : Timestamp) : Except StoreError Nat :=
  let rows := (v.current s).rows
  nearestIndex (n := rows.size) (fun i => rows[i].record.timestamp) target

/-! ## Notices -/

/-- Adds a notice. -/
def notify (v : View) (n : Notice) : View := { v with notices := v.notices.push n }

/-- Takes the notices. -/
def takeNotices (v : View) : List Notice × View := (v.notices.toList, { v with notices := #[] })

/-- Takes the rows anew and skips the changes that they account for. -/
def reset (v : View) (s : Store) : View :=
  let v := { v with cursor := s.changes.subscribe }.current s
  { v with reported := v.rows.size }.notify .reset

/-- Takes note of a change of the store: after a clear no row is left. -/
def observe (v : View) : Change → View
  | .inserted _ => v
  | .cleared _ =>
    let v := if v.reported > 0 then v.notify (.removed ⟨0, v.reported⟩) else v
    { v with reported := 0 }

/-- Reports the rows as they are now. -/
def report (v : View) (s : Store) : View :=
  let v := v.current s
  let count := v.rows.size
  let v :=
    if count > v.reported then v.notify (.inserted ⟨v.reported, count⟩)
    else if count < v.reported then v.notify .reset
    else v
  { v with reported := count }

/-- Turns the changes of the store since the last time into notices. -/
def refresh (v : View) (s : Store) : View :=
  let d := s.changes.deliver v.cursor
  let v := d.values.foldl observe { v with cursor := d.next }
  if d.missed > 0 then v.reset s else v.report s

/-! ## Filter and template -/

/-- Shows the records that pass another filter. -/
def install (v : View) (s : Store) (filter : Option RecordFilter) : View :=
  { v with filter, rowsGeneration := none }.reset s

/-- Installs a filter, or removes it. A filter is tried on the first record before. -/
def setFilter (v : View) (s : Store) (filter : Option RecordFilter) : Except InstallError View :=
  match filter with
  | none => .ok (v.install s none)
  | some f =>
    match s.records[0]? with
    | none => .error .noSample
    | some sample =>
      match f.check sample with
      | .error e => .error (.unbound e)
      | .ok () => .ok (v.install s (some f))

/-- Reads and installs a filter. A text of white space alone removes it. -/
def setFilterText (v : View) (s : Store) (text : String) : Except InstallError View :=
  if Text.allBlank text.toList then v.setFilter s none
  else
    match RecordFilter.compile text with
    | .error e => .error (.ofFilterError e)
    | .ok f => v.setFilter s (some f)

/-- Reads and installs a template. -/
def setTemplate (v : View) (text : String) : Except TemplateFault View :=
  match Template.parse text with
  | .error fault => .error fault
  | .ok template => .ok ({ v with template }.notify .reset)

/-! ## Synchronisation -/

/-- Takes part in a hub. -/
def attach (v : View) (p : Participant) : View := { v with participant := some p }

/-- Selects a row, and tells the other participants its point in time. -/
def select (v : View) (s : Store) (hub : Hub) (n : Nat) : Except StoreError (Timestamp × Hub) :=
  match v.record s n with
  | .error e => .error e
  | .ok r =>
    match v.participant with
    | none => .ok (r.timestamp, hub)
    | some p => .ok (r.timestamp, hub.publish p r.timestamp)

/-- Follows the latest selection of another participant to the row nearest to it. -/
def follow (v : View) (s : Store) (hub : Hub) : Option Nat × View :=
  match v.participant with
  | none => (none, v)
  | some p =>
    let (selected, p) := hub.latest p
    let v := { v with participant := some p }
    match selected with
    | none => (none, v)
    | some timestamp =>
      let v := v.current s
      match v.nearestRow s timestamp with
      | .error _ => (none, v)
      | .ok row => (some row, v.notify (.scrollTo row))

end View

end TraceViews
