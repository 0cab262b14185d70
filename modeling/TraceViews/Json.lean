import TraceViews.Record

/-!
# JSON text

The JSON values that the console writes, and their text without spaces. A string escapes the quote,
the backslash and the control characters below the space; everything else stands as it is.
-/

namespace TraceViews

/-- A JSON value: an integer, a string, or an object with its members in the order of writing. -/
inductive Json where
  | integer (n : Int)
  | text (s : String)
  | object (members : List (String × Json))

namespace Json

/-- A hexadecimal digit, in lower case. -/
def hexDigit (n : Nat) : Char := Nat.digitChar (n % 16)

/-- One character as it stands in a JSON string. -/
def escapeChar (c : Char) : List Char :=
  match c with
  | '"' => ['\\', '"']
  | '\\' => ['\\', '\\']
  | '\x08' => ['\\', 'b']
  | '\x0c' => ['\\', 'f']
  | '\n' => ['\\', 'n']
  | '\r' => ['\\', 'r']
  | '\t' => ['\\', 't']
  | c =>
    if c.toNat < 0x20 then ['\\', 'u', '0', '0', hexDigit (c.toNat / 16), hexDigit c.toNat]
    else [c]

/-- A string with its quotes. -/
def quote (s : String) : List Char := '"' :: s.toList.flatMap escapeChar ++ ['"']

mutual

/-- The text of a value. -/
def write : Json → List Char
  | integer n => Text.intDigits n
  | text s => quote s
  | object members => '\x7b' :: writeMembers members ++ ['\x7d']

/-- The members of an object, separated by commas. -/
def writeMembers : List (String × Json) → List Char
  | [] => []
  | [m] => writeMember m
  | m :: ms => writeMember m ++ ',' :: writeMembers ms

/-- A key and its value. -/
def writeMember : String × Json → List Char
  | (key, value) => quote key ++ ':' :: write value

end

/-- The text of a value, on one line. -/
def render (v : Json) : String := String.ofList v.write

end Json

namespace Record

/-- The record as an object, with its fields in the order of declaration. -/
def toJson (r : Record) : Json :=
  .object [("task_id", .text r.taskId), ("module", .text r.module),
    ("timestamp", .integer r.timestamp.toInt), ("message", .text r.message)]

/-- The record as an object, with its keys in alphabetical order. -/
def toSortedJson (r : Record) : Json :=
  .object [("message", .text r.message), ("module", .text r.module), ("task_id", .text r.taskId),
    ("timestamp", .integer r.timestamp.toInt)]

end Record

end TraceViews
