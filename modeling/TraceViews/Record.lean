import TraceViews.Text.Number

/-!
# Trace records

A record has four fields. Filters and display templates name them by identifier, so the fields form
a closed vocabulary: each has a name and the kind of its values. Main statements: a name finds its
field (`Field.ofName?_name`), and the value found under a name has the kind the vocabulary promises
(`Record.kind_of_lookup`).
-/

namespace TraceViews

/-- A point in time, in the unit of the clock that stamps the records. -/
abbrev Timestamp := Int64

/-- The kind of a field's values. -/
inductive Kind where
  | text
  | integer
  deriving DecidableEq, Repr

namespace Kind

/-- The word for a kind in messages. -/
def name : Kind → String
  | text => "string"
  | integer => "integer"

end Kind

/-- A field's value, and a literal that a filter compares with one. -/
inductive Value where
  | text (s : String)
  | integer (n : Int64)
  deriving DecidableEq, Repr

namespace Value

def kind : Value → Kind
  | text _ => .text
  | integer _ => .integer

/-- The value as it is displayed. -/
def display : Value → String
  | text s => s
  | integer n => Text.showInt64 n

end Value

/-- The fields of a record. -/
inductive Field where
  | taskId
  | module
  | timestamp
  | message
  deriving DecidableEq, Repr

namespace Field

/-- Every field, in the order of declaration. -/
def all : List Field := [taskId, module, timestamp, message]

/-- The identifier of a field in filters and templates. -/
def name : Field → String
  | taskId => "task_id"
  | module => "module"
  | timestamp => "timestamp"
  | message => "message"

/-- The field of a name. -/
def ofName? (s : String) : Option Field := all.find? fun field => field.name == s

def kind : Field → Kind
  | timestamp => .integer
  | _ => .text

theorem ofName?_name (field : Field) : ofName? field.name = some field := by
  cases field <;> decide

theorem name_of_ofName? {s : String} {field : Field} (h : ofName? s = some field) :
    field.name = s := by
  simpa using List.find?_some h

end Field

/-- The kind of the field of a name. -/
def fieldKind? (name : String) : Option Kind := (Field.ofName? name).map Field.kind

/-- A trace record. -/
structure Record where
  taskId : String
  module : String
  timestamp : Timestamp
  message : String
  deriving DecidableEq, Repr

namespace Record

/-- A record with the given fields. A message is a single line: line feeds are taken out of it. -/
def make (taskId module : String) (timestamp : Timestamp) (message : String) : Record :=
  { taskId, module, timestamp, message := String.ofList (message.toList.filter (· != '\n')) }

/-- The value of a field. -/
def get (r : Record) : Field → Value
  | .taskId => .text r.taskId
  | .module => .text r.module
  | .timestamp => .integer r.timestamp
  | .message => .text r.message

/-- The value of the field of a name. -/
def lookup (r : Record) (name : String) : Option Value := (Field.ofName? name).map r.get

/-- The record in one line. -/
def display (r : Record) : String := "[" ++ r.module ++ "] " ++ r.message

theorem kind_get (r : Record) (field : Field) : (r.get field).kind = field.kind := by
  cases field <;> rfl

theorem kind_of_lookup (r : Record) (name : String) :
    (r.lookup name).map Value.kind = fieldKind? name := by
  simp only [lookup, fieldKind?, Option.map_map]
  exact congrArg (Option.map · _) (funext r.kind_get)

end Record

end TraceViews
