import TraceViews.Filter.Expr

/-!
# The meaning of filter expressions

An expression is evaluated against a source of fields, which finds values by name. A comparison
fails where its field is missing, and where it looks for a string in an integer; `and` and `or`
look at their right operand only where the left one leaves the result open, so a failure there may
stay unseen. Binding looks at every comparison instead, against the kinds of the fields, and finds
the failures of all sources of those kinds at once.
-/

namespace TraceViews.Filter

/-- Finds the value of a field by its name. -/
abbrev FieldSource := String → Option Value

/-- Finds the kind of a field by its name. -/
abbrev FieldSchema := String → Option Kind

/-- Why a comparison has no truth value. -/
inductive EvalError where
  | unknownIdentifier (name : String)
  | typeMismatch (name : String) (expected found : Kind)
  deriving DecidableEq, Repr

namespace EvalError

def message : EvalError → String
  | unknownIdentifier name => "Unknown identifier " ++ name
  | typeMismatch name expected found =>
    "Type mismatch for " ++ name ++ ": expected " ++ expected.name ++ ", found " ++ found.name

end EvalError

/-- Whether a text occurs in another one without a gap. -/
def occursIn (needle : List Char) : List Char → Bool
  | [] => needle.isEmpty
  | c :: cs => needle.isPrefixOf (c :: cs) || occursIn needle cs

theorem occursIn_iff {needle hay : List Char} : occursIn needle hay = true ↔ needle <:+: hay := by
  induction hay with
  | nil => simp [occursIn]
  | cons c cs ih =>
    simp only [occursIn, Bool.or_eq_true, List.isPrefixOf_iff_prefix, ih, List.infix_cons_iff]

namespace Comparison

/-- The truth value of a comparison whose field has a value. -/
def holdsAt (value : Value) : Comparison → Except EvalError Bool
  | eq _ literal => .ok (value == literal)
  | contains name needle =>
    match value with
    | .text s => .ok (occursIn needle.toList s.toList)
    | .integer _ => .error (.typeMismatch name .text .integer)
  | within _ items =>
    match value, items with
    | .text s, .texts items => .ok (items.contains s)
    | .integer n, .numbers items => .ok (items.contains n)
    | _, _ => .ok false

/-- The truth value of a comparison. -/
def evaluate (fields : FieldSource) (c : Comparison) : Except EvalError Bool :=
  match fields c.name with
  | none => .error (.unknownIdentifier c.name)
  | some value => c.holdsAt value

/-- Refuses a comparison that cannot be made between a field of this kind and its literals. -/
def bindAt (kind : Kind) : Comparison → Except EvalError Unit
  | contains name _ =>
    match kind with
    | .text => .ok ()
    | .integer => .error (.typeMismatch name .text .integer)
  | _ => .ok ()

/-- Refuses a comparison that fails on sources of the schema. -/
def bind (schema : FieldSchema) (c : Comparison) : Except EvalError Unit :=
  match schema c.name with
  | none => .error (.unknownIdentifier c.name)
  | some kind => c.bindAt kind

end Comparison

namespace Expr

/-- The truth value of an expression, looking at operands from left to right and only as long as
the result is open. -/
def evaluate (fields : FieldSource) : Expr → Except EvalError Bool
  | test c => c.evaluate fields
  | not operand =>
    match operand.evaluate fields with
    | .ok b => .ok !b
    | .error e => .error e
  | and left right =>
    match left.evaluate fields with
    | .ok true => right.evaluate fields
    | .ok false => .ok false
    | .error e => .error e
  | or left right =>
    match left.evaluate fields with
    | .ok true => .ok true
    | .ok false => right.evaluate fields
    | .error e => .error e

/-- Refuses an expression with a comparison that fails on sources of the schema; names the failure
furthest to the left. -/
def bind (schema : FieldSchema) : Expr → Except EvalError Unit
  | test c => c.bind schema
  | not operand => operand.bind schema
  | and left right =>
    match left.bind schema with
    | .ok () => right.bind schema
    | .error e => .error e
  | or left right =>
    match left.bind schema with
    | .ok () => right.bind schema
    | .error e => .error e

end Expr

end TraceViews.Filter
