import TraceViews.Template.Basic
import TraceViews.Text.DecimalDigit
import TraceViews.Text.Utf8

/-!
# Reading display templates

Two braces of one kind stand for one, and a slot is written in braces: the name of a field and,
behind a colon, a width with an optional mark of alignment before it. Every other brace is a fault.
The text is read from left to right, and the first fault is reported at its byte position.
-/

namespace TraceViews

/-- Why a text is no template. -/
inductive TemplateFault where
  | unknownField (name : String) (position : Nat)
  | invalidWidth (width : String) (position : Nat)
  | unbalancedBrace (brace : Char) (position : Nat)
  deriving DecidableEq, Repr

namespace TemplateFault

def position : TemplateFault → Nat
  | unknownField _ position => position
  | invalidWidth _ position => position
  | unbalancedBrace _ position => position

def message (fault : TemplateFault) : String :=
  let subject :=
    match fault with
    | unknownField name _ => "Unknown field '" ++ name ++ "'"
    | invalidWidth width _ => "Invalid width '" ++ width ++ "'"
    | unbalancedBrace brace _ => "Single '" ++ brace.toString ++ "' encountered"
  subject ++ " at position " ++ Text.showNat fault.position

end TemplateFault

/-- The largest width of a slot. -/
def maxWidth : Nat := UInt16.size - 1

namespace Align

/-- The alignment of a mark. -/
def ofMark? : Char → Option Align
  | '<' => some left
  | '>' => some right
  | '^' => some center
  | _ => none

end Align

/-- A slot as written: the name, the alignment, and the digits of the width, none where no width is
given. -/
structure SlotText where
  name : List Char
  align : Option Align
  digits : List Char

/-- Cuts an optional mark of alignment off. -/
def readMark : List Char → Option Align × List Char
  | [] => (none, [])
  | c :: cs =>
    match Align.ofMark? c with
    | some align => (some align, cs)
    | none => (none, c :: cs)

/-- Reads the inside of a slot and the closing brace, and gives what follows. -/
def readSlotText? (cs : List Char) : Option (SlotText × List Char) :=
  let name := cs.takeWhile Text.isWordChar
  if name.head?.any Text.isWordStart then
    match cs.dropWhile Text.isWordChar with
    | '\x7d' :: rest => some (⟨name, none, []⟩, rest)
    | ':' :: rest =>
      let (align, rest) := readMark rest
      let digits := rest.takeWhile Text.isDecimalDigit
      match rest.dropWhile Text.isDecimalDigit with
      | '\x7d' :: rest => if digits.isEmpty then none else some (⟨name, align, digits⟩, rest)
      | _ => none
    | _ => none
  else none

theorem length_readMark_le (cs : List Char) : (readMark cs).2.length ≤ cs.length := by
  unfold readMark
  split
  · simp
  · split <;> simp

theorem length_dropWhile_le (p : Char → Bool) (cs : List Char) :
    (cs.dropWhile p).length ≤ cs.length :=
  (List.dropWhile_sublist p).length_le

/-- Reading a slot leaves less than there was. -/
theorem length_lt_of_readSlotText? {cs rest : List Char} {slot : SlotText}
    (h : readSlotText? cs = some (slot, rest)) : rest.length < cs.length := by
  have hname := length_dropWhile_le Text.isWordChar cs
  simp only [readSlotText?] at h
  split at h
  · split at h
    · rename_i heq
      simp only [Option.some.injEq, Prod.mk.injEq] at h
      rw [← h.2]
      simp only [heq, List.length_cons] at hname
      omega
    · rename_i rest₁ heq
      have hmark := length_readMark_le rest₁
      have hdigits := length_dropWhile_le Text.isDecimalDigit (readMark rest₁).2
      simp only [heq, List.length_cons] at hname
      split at h
      · rename_i heq₂
        simp only [heq₂, List.length_cons] at hdigits
        split at h
        · simp at h
        · simp only [Option.some.injEq, Prod.mk.injEq] at h
          rw [← h.2]
          omega
      · simp at h
    · simp at h
  · simp at h

namespace SlotText

/-- The byte position of the width's digits in a slot whose brace is at `position`. -/
def widthPosition (slot : SlotText) (position : Nat) : Nat :=
  position + 2 + Text.byteLength slot.name + if slot.align.isSome then 1 else 0

/-- The width of a slot: zero where none is given, and none that is no number up to the largest
width. -/
def width? (slot : SlotText) : Option Nat :=
  if slot.digits.isEmpty then some 0
  else (Text.readMagnitude maxWidth .tooLarge slot.digits).toOption

/-- The slot that is written at `position`. -/
def resolve (slot : SlotText) (position : Nat) : Except TemplateFault Slot :=
  match Field.ofName? (String.ofList slot.name) with
  | none => .error (.unknownField (String.ofList slot.name) position)
  | some field =>
    match slot.width? with
    | none => .error (.invalidWidth (String.ofList slot.digits) (slot.widthPosition position))
    | some width => .ok { field, align := slot.align, width }

end SlotText

/-- The parts of a text that begins at byte position `position` of a template. -/
def readSegments (position : Nat) (cs : List Char) : Except TemplateFault (List Segment) :=
  match cs with
  | [] => .ok []
  | '\x7b' :: '\x7b' :: cs => (readSegments (position + 2) cs).map (Segment.consChar '\x7b')
  | '\x7d' :: '\x7d' :: cs => (readSegments (position + 2) cs).map (Segment.consChar '\x7d')
  | '\x7b' :: cs =>
    match _h : readSlotText? cs with
    | none => .error (.unbalancedBrace '\x7b' position)
    | some (slot, rest) =>
      match slot.resolve position with
      | .error fault => .error fault
      | .ok s =>
        (readSegments (position + 1 + (Text.byteLength cs - Text.byteLength rest)) rest).map
          (.slot s :: ·)
  | '\x7d' :: _ => .error (.unbalancedBrace '\x7d' position)
  | c :: cs => (readSegments (position + c.utf8Size) cs).map (Segment.consChar c)
termination_by cs.length
decreasing_by
  all_goals simp only [List.length_cons]
  any_goals omega
  have := length_lt_of_readSlotText? ‹_›
  omega

namespace Template

/-- Reads a template. -/
def parse (source : String) : Except TemplateFault Template :=
  (readSegments 0 source.toList).map fun segments => { source, segments }

/-- The template where none is given: the timestamp, the module in ten columns, the message. -/
def standard : Template where
  source := "[\x7btimestamp\x7d][\x7bmodule:10\x7d] : \x7bmessage\x7d"
  segments :=
    [.literal ['['], .slot ⟨.timestamp, none, 0⟩, .literal [']', '['], .slot ⟨.module, none, 10⟩,
      .literal [']', ' ', ':', ' '], .slot ⟨.message, none, 0⟩]

end Template

end TraceViews
