import Mathlib.Data.List.Forall2
import TraceViews.Proofs.Template.Forms

/-!
# Writing templates and rendering with them

Every list of pieces, texts and placeholders, can be written as a template: the braces of the texts
are doubled, and a placeholder is written as a slot. Main statement: what is written is read, and it
renders a record as the texts themselves with the padded values of the fields between them
(`render_of_parse_write`).
-/

namespace TraceViews

open Text

/-- A piece of a template: a text, or a place for a field's value with an alignment and a width, both
of which may be left out. -/
inductive Piece where
  | literal (cs : List Char)
  | placeholder (field : Field) (align : Option Align) (width : Option UInt16)

/-- A text as it stands in a template: braces are doubled. -/
def doubleBraces (cs : List Char) : List Char :=
  cs.flatMap fun c => if c = '\x7b' ∨ c = '\x7d' then [c, c] else [c]

/-- The slot that a placeholder is written as. An alignment is written with a width, which is zero
where none is given. -/
def slotText (field : Field) (align : Option Align) (width : Option UInt16) : SlotText where
  name := field.name.toList
  align := align
  digits :=
    match align, width with
    | none, none => []
    | _, width => natDigits (width.getD 0).toNat

namespace Piece

/-- A piece as it is written. -/
def write : Piece → List Char
  | literal cs => doubleBraces cs
  | placeholder field align width => (slotText field align width).chars

end Piece

/-- A value is padded with spaces to a width, or longer than it. A value on the left has no spaces
before it, one on the right none behind it, and one in the center has as many before it as behind
it, or one less. -/
structure IsPadded (align : Align) (width : Nat) (value shown : List Char) : Prop where
  length : shown.length = max width value.length
  spaces : ∃ before after, shown = List.replicate before ' ' ++ value ++ List.replicate after ' ' ∧
    match align with
    | .left => before = 0
    | .right => after = 0
    | .center => after = before ∨ after = before + 1

/-- What is shown of a record for a piece: a text as it is, and the value of a field, padded. Texts
are on the left where no alignment is given, and integers on the right. -/
def Piece.Shows (r : Record) : Piece → List Char → Prop
  | literal cs, shown => shown = cs
  | placeholder field align width, shown =>
    IsPadded (align.getD (match field.kind with | .text => .left | .integer => .right))
      (width.elim 0 UInt16.toNat) (r.get field).display.toList shown

theorem isPadded_pad (align : Align) (width : Nat) (value : List Char) :
    IsPadded align width value (pad align width value) := by
  refine ⟨length_pad align width value, _, _, rfl, ?_⟩
  cases align with
  | left => rfl
  | right => exact Nat.sub_self _
  | center =>
    show width - value.length - (width - value.length) / 2 = (width - value.length) / 2 ∨
      width - value.length - (width - value.length) / 2 = (width - value.length) / 2 + 1
    omega

/-! ## The forms of a piece -/

/-- What a form shows of a record. -/
def Form.shown (r : Record) : Form → List Char
  | plain c => [c]
  | opening => ['\x7b']
  | closing => ['\x7d']
  | slot _ meant => meant.render r

theorem flatMap_render_foldr_push (r : Record) (forms : List Form) :
    (forms.foldr Form.push []).flatMap (Segment.render r) = forms.flatMap (Form.shown r) := by
  induction forms with
  | nil => rfl
  | cons f forms ih =>
    rw [List.foldr_cons, List.flatMap_cons, ← ih]
    cases f with
    | plain c => exact Segment.flatMap_render_consChar r c _
    | opening => exact Segment.flatMap_render_consChar r _ _
    | closing => exact Segment.flatMap_render_consChar r _ _
    | slot s meant => rfl

/-- **A template that is written as forms** is read, and renders a record as they show it. -/
theorem exists_parse_of_forms {forms : List Form} (hforms : ∀ f ∈ forms, f.Sound) :
    ∃ t, Template.parse (String.ofList (forms.flatMap Form.chars)) = .ok t ∧
      ∀ r, (t.render r).toList = forms.flatMap (Form.shown r) := by
  have hread := readSegments_forms hforms 0 []
  rw [List.append_nil, readSegments] at hread
  refine ⟨⟨String.ofList (forms.flatMap Form.chars), forms.foldr Form.push []⟩, ?_, fun r => ?_⟩
  · rw [Template.parse, String.toList_ofList, hread]
    rfl
  · rw [Template.render, String.toList_ofList, flatMap_render_foldr_push]

/-- The form that a character of a text is written as. -/
def Form.ofChar (c : Char) : Form :=
  if c = '\x7b' then .opening else if c = '\x7d' then .closing else .plain c

theorem Form.sound_ofChar (c : Char) : (ofChar c).Sound := by
  rw [ofChar]
  split
  · trivial
  · split
    · trivial
    · exact ⟨‹_›, ‹_›⟩

theorem Form.chars_ofChar (c : Char) :
    (ofChar c).chars = if c = '\x7b' ∨ c = '\x7d' then [c, c] else [c] := by
  rw [ofChar]
  by_cases hopen : c = '\x7b'
  · simp [hopen, chars]
  · by_cases hclose : c = '\x7d'
    · simp [hclose, chars]
    · simp [hopen, hclose, chars]

theorem Form.shown_ofChar (r : Record) (c : Char) : (ofChar c).shown r = [c] := by
  rw [ofChar]
  split
  · next hopen =>
    rw [hopen]
    rfl
  · split
    · next hclose =>
      rw [hclose]
      rfl
    · rfl

theorem isName_name (field : Field) :
    ∃ c cs, field.name.toList = c :: cs ∧ isWordStart c = true ∧ ∀ d ∈ cs, isWordChar d = true := by
  cases field <;> exact ⟨_, _, rfl, rfl, List.all_eq_true.1 rfl⟩

theorem isDecimalDigit_of_isDigit {c : Char} (h : c.isDigit = true) : isDecimalDigit c = true := by
  rw [Char.isDigit, Bool.and_eq_true, decide_eq_true_iff, decide_eq_true_iff] at h
  refine List.any_eq_true.2 ⟨0x30, List.mem_cons_self, ?_⟩
  rw [Bool.and_eq_true, decide_eq_true_iff, decide_eq_true_iff]
  exact h

section SlotText

variable (field : Field) (align : Option Align) (width : Option UInt16)

theorem digits_slotText :
    (slotText field align width).digits = [] ∧ align = none ∧ width = none ∨
      (slotText field align width).digits = natDigits (width.elim 0 UInt16.toNat) := by
  cases align <;> cases width <;> simp [slotText]

theorem shaped_slotText : (slotText field align width).Shaped where
  name := isName_name field
  digits := by
    intro c hc
    rcases digits_slotText field align width with ⟨hnil, -⟩ | hdigits
    · rw [hnil] at hc
      cases hc
    · rw [hdigits] at hc
      exact isDecimalDigit_of_isDigit (isDigit_of_mem_natDigits hc)
  align := by
    intro hnil
    rcases digits_slotText field align width with ⟨-, halign, -⟩ | hdigits
    · exact halign
    · exact absurd (hdigits.symm.trans hnil) (natDigits_ne_nil _)

theorem denotes_slotText :
    (slotText field align width).Denotes ⟨field, align, width.elim 0 UInt16.toNat⟩ := by
  have hwidth : width.elim 0 UInt16.toNat ≤ 65535 := by
    cases width with
    | none => exact Nat.zero_le _
    | some w => exact Nat.le_of_lt_succ w.toNat_lt
  have hvalue : Nat.ofDigitChars 10 (slotText field align width).digits 0
      = width.elim 0 UInt16.toNat := by
    rcases digits_slotText field align width with ⟨hnil, -, rfl⟩ | hdigits
    · rw [hnil]
      exact Nat.ofDigitChars_nil
    · rw [hdigits]
      exact Nat.ofDigitChars_ten_toDigits
  refine ⟨String.ofList_toList.symm, rfl, ⟨?_, hvalue ▸ hwidth⟩, hvalue.symm⟩
  intro c hc
  rcases digits_slotText field align width with ⟨hnil, -⟩ | hdigits
  · rw [hnil] at hc
    cases hc
  · rw [hdigits] at hc
    exact isDigit_of_mem_natDigits hc

end SlotText

namespace Piece

/-- The forms of a piece. -/
def forms : Piece → List Form
  | literal cs => cs.map Form.ofChar
  | placeholder field align width =>
    [.slot (slotText field align width) ⟨field, align, width.elim 0 UInt16.toNat⟩]

theorem flatMap_chars_forms (p : Piece) : p.forms.flatMap Form.chars = p.write := by
  cases p with
  | literal cs =>
    show (cs.map Form.ofChar).flatMap Form.chars = doubleBraces cs
    rw [List.flatMap_map, doubleBraces]
    exact congrArg (cs.flatMap ·) (funext Form.chars_ofChar)
  | placeholder field align width => exact List.append_nil _

theorem sound_forms (p : Piece) : ∀ f ∈ p.forms, f.Sound := by
  cases p with
  | literal cs =>
    intro f hf
    obtain ⟨c, -, rfl⟩ := List.mem_map.1 hf
    exact Form.sound_ofChar c
  | placeholder field align width =>
    exact List.forall_mem_singleton.2
      ⟨shaped_slotText field align width, denotes_slotText field align width⟩

theorem shows_forms (r : Record) (p : Piece) : p.Shows r (p.forms.flatMap (Form.shown r)) := by
  cases p with
  | literal cs =>
    show (cs.map Form.ofChar).flatMap (Form.shown r) = cs
    rw [List.flatMap_map]
    simp only [Form.shown_ofChar, List.flatMap_singleton']
  | placeholder field align width =>
    show IsPadded _ _ _ _
    rw [forms, List.flatMap_singleton]
    exact isPadded_pad _ _ _

end Piece

/-- **A template that is written from pieces** is read, and it renders a record as the texts
themselves with the values of the fields between them, padded and otherwise unaltered. -/
theorem render_of_parse_write (pieces : List Piece) :
    ∃ t, Template.parse (String.ofList (pieces.flatMap Piece.write)) = .ok t ∧
      ∀ r, ∃ shown, List.Forall₂ (Piece.Shows r) pieces shown ∧
        (t.render r).toList = shown.flatten := by
  have hsound : ∀ f ∈ pieces.flatMap Piece.forms, f.Sound := by
    intro f hf
    obtain ⟨p, -, hf⟩ := List.mem_flatMap.1 hf
    exact p.sound_forms f hf
  obtain ⟨t, ht, hrender⟩ := exists_parse_of_forms hsound
  have hwrite : (pieces.flatMap Piece.forms).flatMap Form.chars = pieces.flatMap Piece.write := by
    rw [List.flatMap_assoc]
    exact congrArg (pieces.flatMap ·) (funext Piece.flatMap_chars_forms)
  refine ⟨t, hwrite ▸ ht, fun r => ?_⟩
  refine ⟨pieces.map fun p => p.forms.flatMap (Form.shown r), ?_, ?_⟩
  · rw [List.forall₂_map_right_iff, List.forall₂_same]
    exact fun p _ => p.shows_forms r
  · rw [hrender, List.flatMap_assoc, List.flatMap]

end TraceViews
