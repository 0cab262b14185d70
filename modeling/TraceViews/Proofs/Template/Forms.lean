import TraceViews.Proofs.Template.Slots

/-!
# Templates as sequences of forms

A template is a sequence of characters other than braces, of doubled braces, and of slots. A text
begins with one of these forms at most (`Form.eq_of_append_eq`), and the reader takes them one by one
from the left (`readSegments_forms`).
-/

namespace TraceViews

open Text

/-- What a template is made of: a character that is no brace, two braces of a kind, or a slot as it
is written with the slot that is meant. -/
inductive Form where
  | plain (c : Char)
  | opening
  | closing
  | slot (s : SlotText) (meant : Slot)

namespace Form

/-- A form as it is written. -/
def chars : Form → List Char
  | plain c => [c]
  | opening => ['\x7b', '\x7b']
  | closing => ['\x7d', '\x7d']
  | slot s _ => s.chars

/-- A form that a template may have. -/
def Sound : Form → Prop
  | plain c => c ≠ '\x7b' ∧ c ≠ '\x7d'
  | opening => True
  | closing => True
  | slot s meant => s.Shaped ∧ s.Denotes meant

/-- Puts a form in front of the parts of a template. -/
def push : Form → List Segment → List Segment
  | plain c => Segment.consChar c
  | opening => Segment.consChar '\x7b'
  | closing => Segment.consChar '\x7d'
  | slot _ meant => (.slot meant :: ·)

end Form

/-- A text that is a sequence of forms. -/
def IsTemplate (cs : List Char) : Prop :=
  ∃ forms : List Form, (∀ f ∈ forms, f.Sound) ∧ cs = forms.flatMap Form.chars

/-! ## One form at a time -/

/-- A slot begins with its brace and the first character of its name. -/
theorem SlotText.Shaped.exists_chars {s : SlotText} (h : s.Shaped) :
    ∃ c more, s.chars = '\x7b' :: c :: more ∧ isWordStart c = true := by
  obtain ⟨c, cs, hname, hc, -⟩ := h.name
  by_cases hdigits : s.digits = []
  · exact ⟨c, _, by rw [chars_of_nil hdigits, hname]; rfl, hc⟩
  · exact ⟨c, _, by rw [chars_of_digits hdigits, hname]; rfl, hc⟩

/-- A brace that is neither doubled nor the first one of a slot is refused. -/
theorem readSegments_openBrace {cs : List Char} (hpair : cs.head? ≠ some '\x7b')
    (hslot : readSlotText? cs = none) (position : Nat) :
    readSegments position ('\x7b' :: cs) = .error (.unbalancedBrace '\x7b' position) := by
  rw [readSegments.eq_4 _ _ (by rintro _ rfl; exact hpair rfl)]
  split
  · rfl
  · next h => cases hslot.symm.trans h

theorem readSegments_closeBrace {cs : List Char} (hpair : cs.head? ≠ some '\x7d') (position : Nat) :
    readSegments position ('\x7d' :: cs) = .error (.unbalancedBrace '\x7d' position) :=
  readSegments.eq_5 _ _ (by rintro _ rfl; exact hpair rfl)

/-- **A slot is read** as what is meant, or refused. -/
theorem readSegments_slot {s : SlotText} (h : s.Shaped) (position : Nat) (rest : List Char) :
    readSegments position (s.chars ++ rest)
      = match s.resolve position with
        | .error fault => .error fault
        | .ok meant =>
          (readSegments (position + byteLength s.chars) rest).map (.slot meant :: ·) := by
  obtain ⟨c, more, hchars, hc⟩ := h.exists_chars
  have hread : readSlotText? (c :: more ++ rest) = some (s, rest) :=
    readSlotText?_of_shaped h (by rw [hchars]; rfl)
  have hpair : ∀ cs, c :: more ++ rest = '\x7b' :: cs → False := by
    rintro cs hcs
    cases hcs
    exact absurd hc (by decide)
  have hwidth : position + 1 + (byteLength (c :: more ++ rest) - byteLength rest)
      = position + byteLength s.chars := by
    have hbrace : Char.utf8Size '\x7b' = 1 := rfl
    rw [hchars, byteLength_append, Nat.add_sub_cancel, byteLength_cons '\x7b', hbrace, Nat.add_assoc]
  rw [hchars, List.cons_append, readSegments.eq_4 _ _ hpair, ← hchars]
  split
  · next hnone => cases hread.symm.trans hnone
  · next s' rest' hsome =>
    cases hread.symm.trans hsome
    cases s.resolve position with
    | error fault => rfl
    | ok meant => exact congrArg (fun n => (readSegments n rest).map (.slot meant :: ·)) hwidth

/-- **A form is read** and put in front of what follows it. -/
theorem readSegments_form {f : Form} (hf : f.Sound) (position : Nat) (rest : List Char) :
    readSegments position (f.chars ++ rest)
      = (readSegments (position + byteLength f.chars) rest).map f.push := by
  cases f with
  | plain c =>
    obtain ⟨hopen, hclose⟩ := hf
    exact readSegments.eq_6 _ _ _ (fun _ h _ => hopen h) (fun _ h _ => hclose h) hopen hclose
  | opening => exact readSegments.eq_2 _ _
  | closing => exact readSegments.eq_3 _ _
  | slot s meant =>
    obtain ⟨hshaped, hdenotes⟩ := hf
    show readSegments position (s.chars ++ rest) = _
    rw [readSegments_slot hshaped, SlotText.resolve_eq_ok_iff.2 hdenotes]
    rfl

/-- **Forms are read** one by one from the left. -/
theorem readSegments_forms {forms : List Form} (hforms : ∀ f ∈ forms, f.Sound) (position : Nat)
    (rest : List Char) :
    readSegments position (forms.flatMap Form.chars ++ rest)
      = (readSegments (position + byteLength (forms.flatMap Form.chars)) rest).map
          fun segments => forms.foldr Form.push segments := by
  induction forms generalizing position with
  | nil =>
    show readSegments position rest = (readSegments position rest).map id
    rw [Except.map_id]
    rfl
  | cons f forms ih =>
    obtain ⟨hf, hforms⟩ := List.forall_mem_cons.1 hforms
    rw [List.flatMap_cons, List.append_assoc, readSegments_form hf, ih hforms, byteLength_append,
      Nat.add_assoc]
    cases readSegments (position + (byteLength f.chars + byteLength (forms.flatMap Form.chars))) rest
    · rfl
    · rfl

/-- **A text begins with one form at most**, whether or not its slots stand for anything. -/
theorem Form.eq_of_append_eq {s : SlotText} (hs : s.Shaped) {f : Form} (hf : f.Sound)
    {rest rest' : List Char} (h : s.chars ++ rest = f.chars ++ rest') :
    ∃ meant, f = .slot s meant := by
  obtain ⟨c, more, hchars, hc⟩ := hs.exists_chars
  cases f with
  | plain d =>
    rw [hchars] at h
    cases h
    exact absurd rfl hf.1
  | opening =>
    rw [hchars] at h
    cases h
    exact absurd hc (by decide)
  | closing =>
    rw [hchars] at h
    cases h
  | slot s' meant =>
    have hinside : '\x7b' :: (c :: more ++ rest) = s.chars ++ rest := by
      rw [hchars]
      rfl
    have hread := readSlotText?_of_shaped hs hinside
    have hread' := readSlotText?_of_shaped hf.1 (hinside.trans h)
    cases hread.symm.trans hread'
    exact ⟨meant, rfl⟩

end TraceViews
