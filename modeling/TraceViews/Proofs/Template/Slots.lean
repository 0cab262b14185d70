import TraceViews.Template.Reader
import TraceViews.Proofs.Except
import TraceViews.Proofs.Text.ReadBack

/-!
# Slots as they are written

A slot is written in braces: a name and, behind a colon, an optional mark of alignment and decimal
digits. The reader finds the inside of a slot where one is written, and nowhere else
(`readSlotText?_eq_some_iff`). What is written stands for a slot of a record if the name is that of a
field and the digits are ASCII digits of a width that is not too large (`SlotText.resolve_eq_ok_iff`).
-/

namespace TraceViews

open Text

namespace Align

/-- The mark of an alignment. -/
def mark : Align → Char
  | left => '<'
  | right => '>'
  | center => '^'

theorem ofMark?_eq_some_iff {c : Char} {align : Align} :
    ofMark? c = some align ↔ c = align.mark := by
  constructor
  · intro h
    rw [ofMark?.eq_def] at h
    split at h <;> cases h <;> rfl
  · rintro rfl
    cases align <;> rfl

end Align

/-- Digits are no marks of alignment. -/
theorem ofMark?_of_isDecimalDigit {c : Char} (h : isDecimalDigit c = true) :
    Align.ofMark? c = none := by
  cases hc : Align.ofMark? c with
  | none => rfl
  | some align =>
    rw [Align.ofMark?_eq_some_iff.1 hc] at h
    cases align <;> exact absurd h (by decide)

namespace SlotText

variable {s : SlotText}

/-- What stands before the digits of a slot: the brace, the name and, if there are digits, a colon
with the mark of the alignment. -/
def lead (s : SlotText) : List Char :=
  '\x7b' :: s.name ++ if s.digits = [] then [] else ':' :: (s.align.map Align.mark).toList

/-- A slot as it is written. -/
def chars (s : SlotText) : List Char := s.lead ++ s.digits ++ ['\x7d']

/-- What is written has the shape of a slot: the name is an ASCII word, the digits are decimal digits
of any script, and an alignment stands only before digits. -/
structure Shaped (s : SlotText) : Prop where
  name : ∃ c cs, s.name = c :: cs ∧ isWordStart c = true ∧ ∀ d ∈ cs, isWordChar d = true
  digits : ∀ c ∈ s.digits, isDecimalDigit c = true
  align : s.digits = [] → s.align = none

/-- The digits are ASCII digits, and their number is at most 65535. No digits are no width, which is
the width zero. -/
def Fits (s : SlotText) : Prop :=
  (∀ c ∈ s.digits, c.isDigit = true) ∧ Nat.ofDigitChars 10 s.digits 0 ≤ 65535

/-- What is written stands for a slot of a record. -/
structure Denotes (s : SlotText) (slot : Slot) : Prop where
  field : slot.field.name = String.ofList s.name
  align : slot.align = s.align
  fits : s.Fits
  width : slot.width = Nat.ofDigitChars 10 s.digits 0

/-! ## Reading the inside of a slot -/

/-- The inside of a slot that has digits. -/
theorem chars_of_digits (h : s.digits ≠ []) :
    s.chars
      = '\x7b' :: (s.name ++ ':' :: ((s.align.map Align.mark).toList ++ s.digits ++ ['\x7d'])) := by
  simp [chars, lead, h]

theorem chars_of_nil (h : s.digits = []) : s.chars = '\x7b' :: (s.name ++ ['\x7d']) := by
  simp [chars, lead, h]

theorem Shaped.isWordChar (h : s.Shaped) : ∀ c ∈ s.name, Text.isWordChar c = true := by
  obtain ⟨c, cs, hname, hc, hcs⟩ := h.name
  rw [hname]
  exact List.forall_mem_cons.2 ⟨isWordChar_of_isWordStart hc, hcs⟩

theorem Shaped.head (h : s.Shaped) : s.name.head?.any isWordStart = true := by
  obtain ⟨c, cs, hname, hc, -⟩ := h.name
  rw [hname]
  exact hc

end SlotText

/-- A mark of alignment is cut off before digits, if there is one. -/
theorem readMark_append (align : Option Align) {c : Char} (hc : isDecimalDigit c = true)
    (cs : List Char) :
    readMark ((align.map Align.mark).toList ++ c :: cs) = (align, c :: cs) := by
  cases align with
  | none => simp [readMark, ofMark?_of_isDecimalDigit hc]
  | some align => simp [readMark, Align.ofMark?_eq_some_iff.2 rfl]

theorem append_of_readMark (cs : List Char) :
    ((readMark cs).1.map Align.mark).toList ++ (readMark cs).2 = cs := by
  cases cs with
  | nil => rfl
  | cons c cs =>
    rw [readMark]
    cases hc : Align.ofMark? c with
    | none => rfl
    | some align =>
      rw [Align.ofMark?_eq_some_iff.1 hc]
      rfl

/-- **A written slot is read.** -/
theorem readSlotText?_of_shaped {s : SlotText} (h : s.Shaped) {cs rest : List Char}
    (heq : '\x7b' :: cs = s.chars ++ rest) : readSlotText? cs = some (s, rest) := by
  obtain ⟨name, align, digits⟩ := s
  cases digits with
  | nil =>
    have hbrace : isWordChar '\x7d' = false := by decide
    rw [SlotText.chars_of_nil rfl, List.cons_append, List.cons.injEq, List.append_assoc] at heq
    obtain ⟨htake, hdrop⟩ := takeWhile_append_cons h.isWordChar hbrace rest
    obtain rfl : align = none := h.align rfl
    simp only [readSlotText?, heq.2, List.singleton_append, htake, hdrop, h.head, if_true]
  | cons d ds =>
    rw [SlotText.chars_of_digits (by simp), List.cons_append, List.cons.injEq, List.append_assoc,
      List.cons_append, List.append_assoc, List.append_assoc, List.cons_append] at heq
    have hcolon : isWordChar ':' = false := by decide
    have hend : isDecimalDigit '\x7d' = false := by decide
    obtain ⟨htake, hdrop⟩ := takeWhile_append_cons h.isWordChar hcolon
      ((align.map Align.mark).toList ++ d :: (ds ++ '\x7d' :: rest))
    obtain ⟨htakes, hdrops⟩ := takeWhile_append_cons h.digits hend rest
    have hd := h.digits d List.mem_cons_self
    rw [List.cons_append] at htakes hdrops
    simp only [readSlotText?, heq.2, List.singleton_append, htake, hdrop, h.head, if_true,
      readMark_append align hd, htakes, hdrops, List.isEmpty_cons, Bool.false_eq_true, if_false]

/-- The run of a class that a text begins with, and what follows, make up the text. -/
theorem eq_append_of_dropWhile {p : Char → Bool} {cs rest : List Char}
    (h : cs.dropWhile p = rest) : cs = cs.takeWhile p ++ rest := by
  rw [← h, List.takeWhile_append_dropWhile]

/-- **What is read as a slot is written as one.** -/
theorem shaped_of_readSlotText? {cs rest : List Char} {s : SlotText}
    (h : readSlotText? cs = some (s, rest)) : s.Shaped ∧ '\x7b' :: cs = s.chars ++ rest := by
  simp only [readSlotText?] at h
  split at h
  case isFalse => cases h
  case isTrue hhead =>
  have hname : ∃ c cs', cs.takeWhile isWordChar = c :: cs' ∧ isWordStart c = true ∧
      ∀ d ∈ cs', isWordChar d = true := by
    have hclass : ∀ c ∈ cs.takeWhile isWordChar, isWordChar c = true := of_mem_takeWhile
    cases hword : cs.takeWhile isWordChar with
    | nil => simp [hword] at hhead
    | cons c cs' =>
      rw [hword] at hhead hclass
      exact ⟨c, cs', rfl, hhead, fun d hd => hclass d (List.mem_cons_of_mem c hd)⟩
  split at h
  case h_1 rest' hrest =>
    cases h
    refine ⟨⟨hname, fun c hc => absurd hc List.not_mem_nil, fun _ => rfl⟩, ?_⟩
    rw [SlotText.chars_of_nil rfl, List.cons_append, List.append_assoc]
    exact congrArg _ (eq_append_of_dropWhile hrest)
  case h_2 more hmore =>
    split at h
    case h_1 rest' hrest =>
      split at h
      case isTrue => cases h
      case isFalse hdigits =>
        cases h
        rw [List.isEmpty_iff] at hdigits
        refine ⟨⟨hname, of_mem_takeWhile, fun hnil => absurd hnil hdigits⟩, ?_⟩
        rw [SlotText.chars_of_digits hdigits, List.cons_append]
        have hinside := eq_append_of_dropWhile hrest
        have hmark := append_of_readMark more
        have hcs := eq_append_of_dropWhile hmore
        rw [hinside] at hmark
        rw [← hmark] at hcs
        exact congrArg _ (hcs.trans (by simp))
    case h_2 => cases h
  case h_3 => cases h

/-- **The inside of a slot** is read where a slot is written, and nowhere else. -/
theorem readSlotText?_eq_some_iff {cs rest : List Char} {s : SlotText} :
    readSlotText? cs = some (s, rest) ↔ s.Shaped ∧ '\x7b' :: cs = s.chars ++ rest :=
  ⟨shaped_of_readSlotText?, fun h => readSlotText?_of_shaped h.1 h.2⟩

/-! ## The slot that is meant -/

namespace SlotText

variable {s : SlotText}

theorem width?_eq_some_iff {width : Nat} :
    s.width? = some width ↔ s.Fits ∧ width = Nat.ofDigitChars 10 s.digits 0 := by
  have hmax : maxWidth = 65535 := rfl
  rw [width?, Fits]
  by_cases hnil : s.digits = []
  · rw [hnil]
    constructor
    · intro h
      cases h
      exact ⟨⟨nofun, Nat.zero_le _⟩, Nat.ofDigitChars_nil.symm⟩
    · rintro ⟨-, rfl⟩
      rfl
  · rw [if_neg (by simpa using hnil), readMagnitude, if_neg (by simpa using hnil)]
    have hok : (readDigits maxWidth .tooLarge 0 s.digits).toOption = some width ↔
        readDigits maxWidth .tooLarge 0 s.digits = .ok width :=
      ⟨eq_ok_of_toOption, fun h => by rw [h]; rfl⟩
    rw [hok, readDigits_eq_ok_iff _ (Nat.zero_le _), hmax]
    constructor
    · rintro ⟨hdigits, rfl, hle⟩
      exact ⟨⟨hdigits, hle⟩, rfl⟩
    · rintro ⟨⟨hdigits, hle⟩, rfl⟩
      exact ⟨hdigits, rfl, hle⟩

/-- **What is written stands for a slot**, or else it is refused. -/
theorem resolve_eq_ok_iff {position : Nat} {slot : Slot} :
    s.resolve position = .ok slot ↔ s.Denotes slot := by
  rw [resolve]
  constructor
  · intro h
    split at h
    case h_1 => cases h
    case h_2 field hfield =>
    split at h
    case h_1 => cases h
    case h_2 width hwidth =>
    cases h
    obtain ⟨hfits, hvalue⟩ := width?_eq_some_iff.1 hwidth
    exact ⟨Field.name_of_ofName? hfield, rfl, hfits, hvalue⟩
  · rintro ⟨hfield, halign, hfits, hvalue⟩
    have hname : Field.ofName? (String.ofList s.name) = some slot.field := by
      rw [← hfield, Field.ofName?_name]
    simp only [hname, width?_eq_some_iff.2 ⟨hfits, hvalue⟩, ← halign]

theorem resolve_of_unknown (h : ∀ field : Field, field.name ≠ String.ofList s.name)
    (position : Nat) :
    s.resolve position = .error (.unknownField (String.ofList s.name) position) := by
  cases hname : Field.ofName? (String.ofList s.name) with
  | none => simp only [resolve, hname]
  | some field => exact absurd (Field.name_of_ofName? hname) (h field)

/-- No digits always fit. -/
theorem digits_ne_nil_of_not_fits (h : ¬ s.Fits) : s.digits ≠ [] := by
  intro hnil
  refine h ⟨?_, ?_⟩
  · rw [hnil]
    exact nofun
  · rw [hnil]
    exact Nat.zero_le _

/-- The digits stand behind what leads to them. -/
theorem widthPosition_eq (h : s.digits ≠ []) (position : Nat) :
    s.widthPosition position = position + byteLength s.lead := by
  have hbrace : Char.utf8Size '\x7b' = 1 := rfl
  have hcolon : Char.utf8Size ':' = 1 := rfl
  rw [widthPosition, lead, if_neg h]
  cases s.align with
  | none =>
    simp [hbrace, hcolon]
    omega
  | some align =>
    have hmark : align.mark.utf8Size = 1 := by cases align <;> rfl
    simp [hbrace, hcolon, hmark]
    omega

/-- A width that does not fit is refused at its digits. -/
theorem resolve_of_not_fits {field : Field} (hfield : field.name = String.ofList s.name)
    (h : ¬ s.Fits) (position : Nat) :
    s.resolve position
      = .error (.invalidWidth (String.ofList s.digits) (position + byteLength s.lead)) := by
  have hname : Field.ofName? (String.ofList s.name) = some field := by
    rw [← hfield, Field.ofName?_name]
  have hwidth : s.width? = none := by
    rw [Option.eq_none_iff_forall_ne_some]
    intro width hwidth
    exact h (width?_eq_some_iff.1 hwidth).1
  have hplace := widthPosition_eq (digits_ne_nil_of_not_fits h) position
  simp only [resolve, hname, hwidth, hplace]

end SlotText

end TraceViews
