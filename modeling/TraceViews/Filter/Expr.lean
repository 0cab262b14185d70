import TraceViews.Record

/-!
# Filter expressions

A filter expression combines comparisons with `and`, `or` and `not`. A comparison has the name of a
field on its left and literals on its right.
-/

namespace TraceViews.Filter

/-- The list on the right of a membership test: literals of one kind. -/
inductive Items where
  | texts (items : List String)
  | numbers (items : List Int64)
  deriving DecidableEq, Repr

namespace Items

/-- The literals of a list, as values. -/
def values : Items → List Value
  | texts items => items.map .text
  | numbers items => items.map .integer

end Items

/-- A test of one field. -/
inductive Comparison where
  | eq (name : String) (value : Value)
  | contains (name : String) (needle : String)
  | within (name : String) (items : Items)
  deriving DecidableEq, Repr

namespace Comparison

/-- The name of the field that is tested. -/
def name : Comparison → String
  | eq name _ => name
  | contains name _ => name
  | within name _ => name

end Comparison

/-- A filter expression. -/
inductive Expr where
  | test (c : Comparison)
  | not (operand : Expr)
  | and (left right : Expr)
  | or (left right : Expr)
  deriving DecidableEq, Repr

namespace Expr

/-- The number of nodes on the longest path from the root to a comparison. -/
def height : Expr → Nat
  | test _ => 1
  | not operand => operand.height + 1
  | and left right => max left.height right.height + 1
  | or left right => max left.height right.height + 1

/-- The comparisons of an expression, from left to right. -/
def comparisons : Expr → List Comparison
  | test c => [c]
  | not operand => operand.comparisons
  | and left right => left.comparisons ++ right.comparisons
  | or left right => left.comparisons ++ right.comparisons

theorem height_pos (e : Expr) : 0 < e.height := by
  cases e <;> simp [height]

end Expr

end TraceViews.Filter
