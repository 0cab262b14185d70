import TraceViews.Console.Line
import TraceViews.Proofs.Json.Reader

/-!
# What lines of JSON tell

A line of output tells an event: a row, a row that a view was taken to, a notice or an error. An
event and a record are found in an object by the keys of its members, in whatever order those are.
Main statement: every record and every line is one object without control characters, and it reads
back as that record or as the event of that line (`tells_of_print`).
-/

namespace TraceViews

namespace Json

/-! ## Members -/

/-- The value of the member with a key. -/
def member? (v : Json) (key : String) : Option Json :=
  match v with
  | object members => members.lookup key
  | _ => none

/-- The string that a value is. -/
def text? : Json → Option String
  | text s => some s
  | _ => none

/-- The number of rows or views that a value is. -/
def count? : Json → Option Nat
  | integer (.ofNat n) => some n
  | _ => none

/-- The point in time that a value is; there is none out of the range of clocks. -/
def timestamp? : Json → Option Timestamp
  | integer n =>
    if Int64.minValue.toInt ≤ n ∧ n ≤ Int64.maxValue.toInt then some (Int64.ofInt n) else none
  | _ => none

theorem timestamp?_toInt (t : Timestamp) : (integer t.toInt).timestamp? = some t := by
  have hrange : Int64.minValue.toInt ≤ t.toInt ∧ t.toInt ≤ Int64.maxValue.toInt :=
    ⟨Int64.minValue_le_toInt t, Int64.toInt_le t⟩
  rw [timestamp?, if_pos hrange, Int64.ofInt_toInt]

end Json

/-! ## Records -/

namespace Record

/-- The record that an object stands for. -/
def ofJson? (v : Json) : Option Record := do
  let taskId ← (← v.member? "task_id").text?
  let module ← (← v.member? "module").text?
  let timestamp ← (← v.member? "timestamp").timestamp?
  let message ← (← v.member? "message").text?
  return { taskId, module, timestamp, message }

theorem ofJson?_toJson (r : Record) : ofJson? r.toJson = some r := by
  simp [ofJson?, toJson, Json.member?, Json.text?, List.lookup_cons, Json.timestamp?_toInt]

theorem ofJson?_toSortedJson (r : Record) : ofJson? r.toSortedJson = some r := by
  simp [ofJson?, toSortedJson, Json.member?, Json.text?, List.lookup_cons, Json.timestamp?_toInt]

end Record

namespace Console

/-! ## Events -/

/-- What a line tells in JSON. -/
inductive Event where
  | row (view row : Nat) (record : Record)
  | sync (view row : Nat) (record : Record)
  | notice (message : String)
  | error (message : String)
  deriving DecidableEq, Repr

/-- The event of a line: all of it but the text that a row is rendered as. -/
def Line.event : Line → Event
  | .row view n record _ => .row view n record
  | .synced view n record => .sync view n record
  | .notice message => .notice message
  | .error message => .error message

namespace Event

/-- The view, the row and the record that an object names, as an event of a kind. -/
def place? (kind : Nat → Nat → Record → Event) (v : Json) : Option Event := do
  let view ← (← v.member? "view").count?
  let n ← (← v.member? "row").count?
  let record ← Record.ofJson? (← v.member? "record")
  return kind view n record

/-- The message that an object holds, as an event of a kind. -/
def message? (kind : String → Event) (v : Json) : Option Event := do
  return kind (← (← v.member? "message").text?)

/-- The event that an object stands for. -/
def ofJson? (v : Json) : Option Event := do
  match ← (← v.member? "event").text? with
  | "row" => place? row v
  | "sync" => place? sync v
  | "notice" => message? notice v
  | "error" => message? error v
  | _ => none

/-- The event that a text tells. -/
def ofText? (text : String) : Option Event := (Json.ofText? text).bind ofJson?

theorem ofJson?_toJson (l : Line) : ofJson? l.toJson = some l.event := by
  cases l with
  | row view n record rendered =>
    simp [ofJson?, place?, Line.toJson, Json.member?, Json.text?, List.lookup_cons, Json.count?,
      Line.event, Record.ofJson?_toSortedJson]
  | synced view n record =>
    simp [ofJson?, place?, Line.toJson, Json.member?, Json.text?, List.lookup_cons, Json.count?,
      Line.event, Record.ofJson?_toSortedJson]
  | notice message =>
    simp [ofJson?, message?, Line.toJson, Json.member?, Json.text?, List.lookup_cons, Line.event]
  | error message =>
    simp [ofJson?, message?, Line.toJson, Json.member?, Json.text?, List.lookup_cons, Line.event]

end Event

/-! ## Lines -/

theorem printable_render (v : Json) : Json.Printable v.render.toList := by
  rw [Json.render, String.toList_ofList]
  exact v.printable_write

theorem Event.ofText?_render (l : Line) : ofText? l.toJson.render = some l.event := by
  rw [ofText?, Json.ofText?_render, Option.bind_some, ofJson?_toJson]

theorem toList_print (l : Line) : (l.print .json).toList = l.toJson.render.toList ++ ['\n'] := by
  simp [Line.print]

/-- A line of output ends at its line feed and not before. -/
theorem splitOn_print (lines : List Line) :
    (lines.flatMap fun l => (l.print .json).toList).splitOn '\n' =
      lines.map (fun l => l.toJson.render.toList) ++ [[]] := by
  induction lines with
  | nil => rfl
  | cons l lines ih =>
    have hline : '\n' ∉ l.toJson.render.toList := fun hmem =>
      absurd (printable_render l.toJson '\n' hmem) (by decide)
    rw [List.flatMap_cons, toList_print, List.append_assoc, List.singleton_append,
      List.splitOn_append_cons_self_of_not_mem hline, ih]
    rfl

/-- Lines that tell the same event are the same object. -/
theorem toJson_eq_of_event {l l' : Line} (h : l.event = l'.event) : l.toJson = l'.toJson := by
  cases l <;> cases l' <;> cases h <;> rfl

/-- **Every text in JSON tells what it was made of.** A record, and every line of output in JSON, is
one object without control characters, and a decoder gets the record or the event of the line back,
so that different ones have different texts. In an output of any number of lines the objects are
what stands between the line feeds. -/
theorem tells_of_print :
    (∀ r : Record, Json.Printable r.toJson.render.toList ∧
      (Json.ofText? r.toJson.render).bind Record.ofJson? = some r) ∧
    (∀ r r' : Record, r.toJson.render = r'.toJson.render ↔ r = r') ∧
    (∀ l : Line, ∃ text, l.print .json = text ++ "\n" ∧ Json.Printable text.toList ∧
      Event.ofText? text = some l.event) ∧
    (∀ l l' : Line, l.print .json = l'.print .json ↔ l.event = l'.event) ∧
    ∀ lines : List Line, ∃ texts : List (List Char),
      (lines.flatMap fun l => (l.print .json).toList).splitOn '\n' = texts ++ [[]] ∧
      texts.map (fun text => Event.ofText? (String.ofList text)) =
        lines.map fun l => some l.event := by
  have hrecord (r : Record) : (Json.ofText? r.toJson.render).bind Record.ofJson? = some r := by
    rw [Json.ofText?_render, Option.bind_some, Record.ofJson?_toJson]
  refine ⟨fun r => ⟨printable_render r.toJson, hrecord r⟩, fun r r' => ⟨fun h => ?_, ?_⟩,
    fun l => ⟨_, rfl, printable_render l.toJson, Event.ofText?_render l⟩, fun l l' =>
    ⟨fun h => ?_, fun h => ?_⟩, fun lines => ⟨_, splitOn_print lines, ?_⟩⟩
  · have hr := hrecord r
    rw [h, hrecord r'] at hr
    exact (Option.some.inj hr).symm
  · rintro rfl
    rfl
  · have htext : l.toJson.render = l'.toJson.render := (String.append_left_inj "\n").1 h
    have hl := Event.ofText?_render l
    rw [htext, Event.ofText?_render] at hl
    exact (Option.some.inj hl).symm
  · exact congrArg (fun v => v.render ++ "\n") (toJson_eq_of_event h)
  · rw [List.map_map]
    refine List.map_congr_left fun l _ => ?_
    rw [Function.comp_apply, String.ofList_toList, Event.ofText?_render]

end Console

end TraceViews
