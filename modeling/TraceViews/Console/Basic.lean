import TraceViews.Console.Command
import TraceViews.Feed.Basic
import TraceViews.Settings.Basic
import TraceViews.View.Basic

/-!
# The console

A console holds a store with its feed, and several views of the store that keep each other at one
point in time. Commands act on the active view. Every step gives the lines that it prints.
-/

namespace TraceViews

open Console (Command Line)

/-- A console with `n` views: the store, its feed, and the source that the feed begins with; the
views with their hub; the active view, and whether its new rows are printed as they arrive. -/
structure Console (n : Nat) where
  store : Store
  feed : Feed
  source : Option Source
  views : Vector View n
  hub : Hub
  active : Fin n
  following : Bool

namespace Console

/-! ## Opening -/

/-- Why a console cannot be opened with its settings. -/
inductive OpenError where
  | invalidTemplate (view : Nat) (fault : TemplateFault)
  | invalidFilter (text : String) (e : InstallError)
  deriving DecidableEq, Repr

namespace OpenError

def message : OpenError → String
  | invalidTemplate view fault =>
    "Invalid display format for view " ++ Text.showNat view ++ ": " ++ fault.message
  | invalidFilter text e => "Invalid initial filter '" ++ text ++ "': " ++ e.message

end OpenError

/-- Views of a store that take part in a hub, with the given template. -/
def openViews (s : Store) (template : String) :
    (n : Nat) → Hub → Except OpenError (Vector View n × Hub)
  | 0, hub => .ok (#v[], hub)
  | n + 1, hub => do
    let (views, hub) ← openViews s template n hub
    let (participant, hub) := hub.join
    match ((View.ofStore s).attach participant).setTemplate template with
    | .error fault => .error (.invalidTemplate n fault)
    | .ok v => .ok (views.push v, hub)

/-- Installs the filter that a console begins with; one that cannot be tried on a record for want
of any is left out. -/
def installFirst (s : Store) (filter : Option String) (v : View) : Except OpenError View :=
  match filter with
  | none => .ok v
  | some text =>
    match v.setFilterText s text with
    | .ok v => .ok v
    | .error .noSample => .ok v
    | .error e => .error (.invalidFilter text e)

/-- A store with the records that come before the feed. -/
def openStore (backlog : List Record) : Store :=
  (backlog.foldl Store.enqueue .empty).drain.2

/-- Opens a console. -/
def make (settings : Settings) (h : 0 < settings.views) (source : Source) :
    Except OpenError (Console settings.views) := do
  let (backlog, source) := source.take settings.backlog
  let store := openStore backlog
  let (views, hub) ← openViews store settings.template settings.views (.empty 0)
  let first ← installFirst store settings.filter views[0]
  let views := (views.set 0 first).map fun v => v.takeNotices.2
  return { store, feed := .make settings.pace, source := some source, views, hub
           active := ⟨0, h⟩, following := true }

/-! ## Steps -/

/-- What a step means for the run: it goes on, it ends, or it goes on although the line that was
read is no command. -/
inductive Flow where
  | goOn
  | quit
  | rejected
  deriving DecidableEq, Repr

/-- The result of a step: the lines that it prints, what it means for the run, and the console. -/
structure Step (n : Nat) where
  lines : List Line
  flow : Flow
  console : Console n

variable {n : Nat}

/-- A step that prints some lines. -/
def prints (c : Console n) (lines : List Line) : Except StoreError (Step n) := .ok ⟨lines, .goOn, c⟩

/-- A step that prints a notice. -/
def notes (c : Console n) (message : String) : Except StoreError (Step n) :=
  c.prints [.notice message]

/-- A step that prints an error. -/
def complains (c : Console n) (message : String) : Except StoreError (Step n) :=
  c.prints [.error message]

/-- A message about a view. -/
def aboutView (i : Nat) (message : String) : String :=
  "view " ++ Text.showNat i ++ ": " ++ message

/-- A number of rows, in words. -/
def countRows (count : Nat) : String := Text.showNat count ++ " rows"

/-- The lines for rows of a view. -/
def rowLines (s : Store) (i : Nat) (v : View) (start stop : Nat) : Except StoreError (List Line) :=
  (List.range' start (stop - start)).mapM fun row => do
    return .row i row (← v.record s row) (← v.data s row)

/-- The lines for a notice of a view. Only the active view's rows are reported; a selection that was
followed always is. -/
def noticeLines (s : Store) (active following : Bool) (i : Nat) (v : View) :
    Notice → Except StoreError (List Line)
  | .inserted span =>
    if active && following then rowLines s i v span.start span.stop else .ok []
  | .removed span =>
    if active then
      .ok [.notice (aboutView i ("rows " ++ Text.showNat span.start ++ ".."
        ++ Text.showNat span.stop ++ " removed"))]
    else .ok []
  | .reset => if active then .ok [.notice (aboutView i (countRows (v.rowCount s)))] else .ok []
  | .scrollTo row => do return [.synced i row (← v.record s row)]

/-- Whether the lines for a notice are read off the rows of its view. -/
def readsRows (active following : Bool) : Notice → Bool
  | .inserted _ => active && following
  | .removed _ => false
  | .reset => active
  | .scrollTo _ => true

/-- Lets a view follow the others, and takes its notices. Its rows are up to date from then on, if
the lines for the notices are read off them. -/
def reportView (s : Store) (hub : Hub) (active following : Bool) (i : Nat) (v : View) :
    Except StoreError (List Line × View) := do
  let (_, v) := v.follow s hub
  let (notices, v) := v.takeNotices
  let lines ← notices.mapM (noticeLines s active following i v)
  return (lines.flatten, if notices.any (readsRows active following) then v.current s else v)

/-- Lets every view follow the others, and reports their notices. -/
def report (c : Console n) : Except StoreError (List Line × Console n) := do
  let reports ← (c.views.mapFinIdx fun i v h =>
    reportView c.store c.hub (c.active = ⟨i, h⟩) c.following i v).mapM id
  return (reports.toList.flatMap Prod.fst, { c with views := reports.map Prod.snd })

/-- Lets every view take note of the store's changes, and reports. -/
def refresh (c : Console n) : Except StoreError (Step n) := do
  let (lines, c) ← report { c with views := c.views.map (·.refresh c.store) }
  c.prints lines

/-- Shows what has arrived in the store. -/
def tick (c : Console n) : Except StoreError (Step n) :=
  refresh { c with store := c.store.drain.2 }

/-- The active view. -/
def activeView (c : Console n) : View := c.views[c.active]

/-- Changes the active view. -/
def setActiveView (c : Console n) (v : View) : Console n :=
  { c with views := c.views.set c.active v }

/-- Installs a filter on the active view. -/
def filter (c : Console n) (text : String) : Except StoreError (Step n) :=
  match c.activeView.setFilterText c.store text with
  | .ok v =>
    let rows := countRows (v.rowCount c.store)
    (c.setActiveView v).notes <| aboutView c.active <|
      if text.isEmpty then "filter cleared, " ++ rows else rows ++ " match"
  | .error (.malformed e) => c.complains (e.message ++ "\n" ++ e.context)
  | .error e => c.complains e.message

/-- Selects a row of the active view, and lets the other views follow. -/
def select (c : Console n) (row : Nat) : Except StoreError (Step n) :=
  let v := c.activeView.current c.store
  let c := c.setActiveView v
  match v.select c.store c.hub row with
  | .error e => c.complains e.message
  | .ok (timestamp, hub) => do
    let (lines, console) ← report { c with hub }
    console.prints (.notice (aboutView c.active ("selected row " ++ Text.showNat row ++ " at "
      ++ Text.showInt64 timestamp)) :: lines)

/-- Looks a point in time up in the store. -/
def goto (c : Console n) (timestamp : Timestamp) : Except StoreError (Step n) :=
  match c.store.nearest timestamp with
  | .error e => c.complains e.message
  | .ok index => do
    let r ← c.store.recordAt index
    c.notes ("index " ++ Text.showNat index ++ " at " ++ Text.showInt64 r.timestamp ++ ": "
      ++ r.display)

/-- Lists rows of the active view. -/
def list (c : Console n) (start count : Nat) : Except StoreError (Step n) := do
  let v := c.activeView.current c.store
  let c := c.setActiveView v
  let stop := min (v.rowCount c.store) (start + count)
  if start < stop then c.prints (← rowLines c.store c.active v start stop)
  else c.notes (aboutView c.active "no rows there")

/-- Counts the records of the store and the rows of every view. -/
def count (c : Console n) : Except StoreError (Step n) :=
  let views := c.views.map (·.current c.store)
  let lines := views.toList.zipIdx.map fun (v, i) =>
    .notice (aboutView i (countRows (v.rowCount c.store) ++ ", filter: "
      ++ (v.filter.map RecordFilter.source).getD "none"))
  prints { c with views }
    (.notice ("store: " ++ Text.showNat c.store.records.size ++ " records") :: lines)

/-- Carries a command out. -/
def handle (c : Console n) : Command → Except StoreError (Step n)
  | .view i =>
    if h : i < n then notes { c with active := ⟨i, h⟩ } ("view " ++ Text.showNat i ++ " active")
    else c.complains ("no view " ++ Text.showNat i ++ " (have " ++ Text.showNat n ++ ")")
  | .filter text => c.filter (text.getD "")
  | .template text =>
    match c.activeView.setTemplate text with
    | .ok v => (c.setActiveView v).notes (aboutView c.active "format set")
    | .error fault => c.complains fault.message
  | .select row => c.select row
  | .goto timestamp => c.goto timestamp
  | .list start count => c.list start count
  | .count => c.count
  | .follow on =>
    notes { c with following := on } (if on then "follow on" else "follow off")
  | .pause => notes { c with feed := c.feed.pause } "producer paused"
  | .resume => notes { c with feed := c.feed.resume } "producer resumed"
  | .clear => refresh { c with store := c.store.clear }
  | .help => c.prints (helpLines.map .notice)
  | .quit => .ok ⟨[], .quit, c⟩

/-- Answers a line that is no command. -/
def reject (c : Console n) (e : Console.CommandError) : Step n :=
  ⟨[.error e.message], .rejected, c⟩

/-- Reads a line, and carries its command out. -/
def enter (c : Console n) (line : String) : Except StoreError (Step n) :=
  match Command.parse line with
  | .ok command => c.handle command
  | .error e => .ok (c.reject e)

/-! ## The feed -/

/-- Queues records for the next tick. -/
def receive (c : Console n) (records : List Record) : Console n :=
  { c with store := records.foldl Store.enqueue c.store }

/-- Begins to feed the store, once. -/
def start (c : Console n) : Console n :=
  match c.source with
  | none => c
  | some source => { c with feed := c.feed.start source, source := none }

/-- Lets time pass for the feed, whose clock now shows `now`. -/
def advance (c : Console n) (ms : Nat) (now : Timestamp) : Console n :=
  let (feed, store) := (c.feed.observe now).advance ms (some c.store)
  { c with feed, store := store.getD c.store }

/-- Ends the feed. -/
def shutdown (c : Console n) : Console n := { c with feed := c.feed.stop }

end Console

end TraceViews
