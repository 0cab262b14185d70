import TraceViews.Record

/-!
# Display templates

A template is a text with slots for the fields of a record. Rendering writes the text as it is and
each slot as the field's value, padded with spaces to the width of the slot.
-/

namespace TraceViews

/-- Where a value stands in a slot that is wider than it. -/
inductive Align where
  | left
  | right
  | center
  deriving DecidableEq, Repr

namespace Align

/-- The alignment of values of a kind where a slot names none. -/
def ofKind : Kind → Align
  | .text => .left
  | .integer => .right

/-- How many of the spaces stand before the value; where they cannot be halved, the odd one stands
after it. -/
def before (spaces : Nat) : Align → Nat
  | left => 0
  | right => spaces
  | center => spaces / 2

end Align

/-- Pads a text with spaces to a width in characters; a longer text stays as it is. -/
def pad (align : Align) (width : Nat) (cs : List Char) : List Char :=
  let spaces := width - cs.length
  List.replicate (align.before spaces) ' ' ++ cs
    ++ List.replicate (spaces - align.before spaces) ' '

theorem Align.before_le (align : Align) (spaces : Nat) : align.before spaces ≤ spaces := by
  cases align <;> simp [before]
  omega

@[simp] theorem length_pad (align : Align) (width : Nat) (cs : List Char) :
    (pad align width cs).length = max width cs.length := by
  have := align.before_le (width - cs.length)
  simp [pad]
  omega

/-- A place for a field's value. -/
structure Slot where
  field : Field
  align : Option Align
  width : Nat
  deriving DecidableEq, Repr

namespace Slot

/-- The value of a record's field, padded to the slot's width. -/
def render (slot : Slot) (r : Record) : List Char :=
  pad (slot.align.getD (.ofKind slot.field.kind)) slot.width (r.get slot.field).display.toList

end Slot

/-- A part of a template. -/
inductive Segment where
  | literal (cs : List Char)
  | slot (s : Slot)
  deriving DecidableEq, Repr

namespace Segment

def render (r : Record) : Segment → List Char
  | literal cs => cs
  | slot s => s.render r

/-- Puts a character in front of the parts, as part of the text that they begin with. -/
def consChar (c : Char) : List Segment → List Segment
  | literal cs :: segments => literal (c :: cs) :: segments
  | segments => literal [c] :: segments

theorem flatMap_render_consChar (r : Record) (c : Char) (segments : List Segment) :
    (consChar c segments).flatMap (render r) = c :: segments.flatMap (render r) := by
  unfold consChar
  split <;> simp [render]

end Segment

/-- A display template: the text it was read from, and its parts. -/
structure Template where
  source : String
  segments : List Segment
  deriving DecidableEq, Repr

namespace Template

/-- A record in the form that the template gives it. -/
def render (t : Template) (r : Record) : String :=
  String.ofList (t.segments.flatMap (Segment.render r))

end Template

end TraceViews
