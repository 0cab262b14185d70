import TraceViews.Proofs.Template.Forms

/-!
# The first fault of a template

A text that is no sequence of forms has a place up to which it is one, and where no form begins
(`StopsAt`). There stands a slot whose name or width is refused, or a brace that begins nothing. Main
statement: the texts that are read are the sequences of forms, and of the others that place is
blamed (`parse_settles`).
-/

namespace TraceViews

open Text

/-- The reading of a text stops between two parts: what comes before is a sequence of forms, what
comes after is not empty, and no form begins there. -/
structure StopsAt (source before after : List Char) : Prop where
  source_eq : source = before ++ after
  isTemplate : IsTemplate before
  ne_nil : after ≠ []
  stuck : ∀ f : Form, f.Sound → ∀ rest, after ≠ f.chars ++ rest

/-- What is blamed where a reading stops, at a byte position. -/
inductive Blames (position : Nat) (after : List Char) : TemplateFault → Prop where
  /-- A slot is written here, and its name is that of no field, whatever its width. -/
  | unknownField {s : SlotText} {rest : List Char} (hafter : after = s.chars ++ rest)
    (hshaped : s.Shaped) (hname : ∀ field : Field, field.name ≠ String.ofList s.name) :
    Blames position after (.unknownField (String.ofList s.name) position)
  /-- A slot for a field is written here, and its digits are no width. -/
  | invalidWidth {s : SlotText} {rest : List Char} {field : Field}
    (hafter : after = s.chars ++ rest) (hshaped : s.Shaped)
    (hname : field.name = String.ofList s.name) (hwidth : ¬ s.Fits) :
    Blames position after
      (.invalidWidth (String.ofList s.digits) (position + byteLength s.lead))
  /-- A brace stands here that is not doubled, and no slot is written here. -/
  | unbalancedBrace {c : Char} {rest : List Char} (hafter : after = c :: rest)
    (hbrace : c = '\x7b' ∨ c = '\x7d') (hpair : rest.head? ≠ some c)
    (hslot : ∀ s : SlotText, s.Shaped → ∀ more, after ≠ s.chars ++ more) :
    Blames position after (.unbalancedBrace c position)

namespace Blames

variable {position : Nat} {after : List Char} {fault : TemplateFault}

/-- Where something is to blame, no form begins. -/
theorem stuck (h : Blames position after fault) {f : Form} (hf : f.Sound) (rest : List Char) :
    after ≠ f.chars ++ rest := by
  rintro heq
  cases h with
  | unknownField hafter hshaped hname =>
    obtain ⟨meant, rfl⟩ := Form.eq_of_append_eq hshaped hf (hafter.symm.trans heq)
    exact hname meant.field hf.2.field
  | invalidWidth hafter hshaped hname hwidth =>
    obtain ⟨meant, rfl⟩ := Form.eq_of_append_eq hshaped hf (hafter.symm.trans heq)
    exact hwidth hf.2.fits
  | unbalancedBrace hafter hbrace hpair hslot =>
    rw [hafter] at heq
    cases f with
    | plain d =>
      cases heq
      exact hbrace.elim hf.1 hf.2
    | opening =>
      cases heq
      exact hpair rfl
    | closing =>
      cases heq
      exact hpair rfl
    | slot s meant => exact hslot s hf.1 rest (hafter.trans heq)

theorem ne_nil (h : Blames position after fault) : after ≠ [] := by
  rintro rfl
  cases h with
  | unknownField hafter => simp [SlotText.chars] at hafter
  | invalidWidth hafter => simp [SlotText.chars] at hafter
  | unbalancedBrace hafter => cases hafter

/-- **The reader finds what is to blame.** -/
theorem readSegments_eq (h : Blames position after fault) :
    readSegments position after = .error fault := by
  cases h with
  | unknownField hafter hshaped hname =>
    rw [hafter, readSegments_slot hshaped, SlotText.resolve_of_unknown hname]
  | invalidWidth hafter hshaped hname hwidth =>
    rw [hafter, readSegments_slot hshaped, SlotText.resolve_of_not_fits hname hwidth]
  | @unbalancedBrace c rest hafter hbrace hpair hslot =>
    rw [hafter]
    rcases hbrace with rfl | rfl
    · refine readSegments_openBrace hpair ?_ position
      rw [Option.eq_none_iff_forall_ne_some]
      rintro ⟨s, more⟩ hread
      obtain ⟨hshaped, heq⟩ := readSlotText?_eq_some_iff.1 hread
      exact hslot s hshaped more (hafter.trans heq)
    · exact readSegments_closeBrace hpair position

end Blames

/-- **At every place** a text ends, a form begins, or something is to blame. -/
theorem form_or_blame (cs : List Char) :
    cs = [] ∨ (∃ f : Form, f.Sound ∧ ∃ rest, cs = f.chars ++ rest) ∨
      ∀ position, ∃ fault, Blames position cs fault := by
  cases cs with
  | nil => exact .inl rfl
  | cons c cs =>
    refine .inr ?_
    by_cases hbrace : c = '\x7b' ∨ c = '\x7d'
    case neg =>
      exact .inl ⟨.plain c, not_or.1 hbrace, cs, rfl⟩
    by_cases hpair : cs.head? = some c
    case pos =>
      obtain ⟨more, rfl⟩ := List.head?_eq_some_iff.1 hpair
      rcases hbrace with rfl | rfl
      · exact .inl ⟨.opening, trivial, more, rfl⟩
      · exact .inl ⟨.closing, trivial, more, rfl⟩
    by_cases hslot : ∃ s : SlotText, s.Shaped ∧ ∃ rest, c :: cs = s.chars ++ rest
    case neg =>
      refine .inr fun position => ⟨_, .unbalancedBrace rfl hbrace hpair ?_⟩
      exact fun s hshaped rest heq => hslot ⟨s, hshaped, rest, heq⟩
    obtain ⟨s, hshaped, rest, heq⟩ := hslot
    by_cases hname : ∃ field : Field, field.name = String.ofList s.name
    case neg =>
      refine .inr fun position => ⟨_, .unknownField heq hshaped ?_⟩
      exact fun field hfield => hname ⟨field, hfield⟩
    obtain ⟨field, hfield⟩ := hname
    by_cases hwidth : s.Fits
    case neg => exact .inr fun position => ⟨_, .invalidWidth heq hshaped hfield hwidth⟩
    exact .inl ⟨.slot s ⟨field, s.align, _⟩, ⟨hshaped, hfield, rfl, hwidth, rfl⟩, rest, heq⟩

theorem IsTemplate.nil : IsTemplate [] := ⟨[], nofun, rfl⟩

theorem IsTemplate.cons {f : Form} (hf : f.Sound) {cs : List Char} (h : IsTemplate cs) :
    IsTemplate (f.chars ++ cs) := by
  obtain ⟨forms, hforms, rfl⟩ := h
  exact ⟨f :: forms, List.forall_mem_cons.2 ⟨hf, hforms⟩, rfl⟩

theorem Form.length_chars_pos (f : Form) : 0 < f.chars.length := by
  cases f with
  | plain c => exact Nat.one_pos
  | opening => exact Nat.two_pos
  | closing => exact Nat.two_pos
  | slot s meant => simp [chars, SlotText.chars, SlotText.lead]

/-- **A text is a sequence of forms, or its reading stops** where something is to blame. -/
theorem isTemplate_or_stopsAt (cs : List Char) :
    IsTemplate cs ∨ ∃ before after, StopsAt cs before after ∧
      ∀ position, ∃ fault, Blames position after fault := by
  induction hn : cs.length using Nat.strongRecOn generalizing cs with
  | ind n ih =>
    rcases form_or_blame cs with rfl | ⟨f, hf, rest, rfl⟩ | hblame
    · exact .inl .nil
    · have hshorter : rest.length < n := by
        rw [← hn, List.length_append]
        have := f.length_chars_pos
        omega
      rcases ih _ hshorter rest rfl with hrest | ⟨before, after, hstop, hblame⟩
      · exact .inl (.cons hf hrest)
      · have hsource : f.chars ++ rest = (f.chars ++ before) ++ after := by
          rw [hstop.source_eq, List.append_assoc]
        have hread : IsTemplate (f.chars ++ before) := .cons hf hstop.isTemplate
        exact .inr ⟨f.chars ++ before, after, ⟨hsource, hread, hstop.ne_nil, hstop.stuck⟩, hblame⟩
    · refine .inr ⟨[], cs, ⟨rfl, .nil, ?_, ?_⟩, hblame⟩
      · exact (hblame 0).choose_spec.ne_nil
      · exact fun f hf rest => (hblame 0).choose_spec.stuck hf rest

theorem IsTemplate.exists_segments {cs : List Char} (h : IsTemplate cs) :
    ∃ segments, readSegments 0 cs = .ok segments := by
  obtain ⟨forms, hforms, rfl⟩ := h
  have hread := readSegments_forms hforms 0 []
  rw [List.append_nil, readSegments] at hread
  exact ⟨_, hread⟩

theorem StopsAt.readSegments_eq {cs before after : List Char} {fault : TemplateFault}
    (h : StopsAt cs before after) (hblame : Blames (byteLength before) after fault) :
    readSegments 0 cs = .error fault := by
  obtain ⟨forms, hforms, hbefore⟩ := h.isTemplate
  rw [h.source_eq, hbefore, readSegments_forms hforms, Nat.zero_add, ← hbefore,
    hblame.readSegments_eq]
  rfl

/-- **A text is read if it is a sequence of forms**, and otherwise the place up to which it is one is
blamed. -/
theorem Template.parse_settles (source : String) :
    ((∃ t, Template.parse source = .ok t) ↔ IsTemplate source.toList) ∧
      ∀ fault, Template.parse source = .error fault ↔
        ∃ before after, StopsAt source.toList before after ∧
          Blames (byteLength before) after fault := by
  have hok : IsTemplate source.toList → ∃ t, Template.parse source = .ok t := by
    intro h
    obtain ⟨segments, hread⟩ := h.exists_segments
    exact ⟨_, by rw [Template.parse, hread]; rfl⟩
  have herror : ∀ before after fault, StopsAt source.toList before after →
      Blames (byteLength before) after fault → Template.parse source = .error fault := by
    intro before after fault hstop hblame
    rw [Template.parse, hstop.readSegments_eq hblame]
    rfl
  rcases isTemplate_or_stopsAt source.toList with htemplate | ⟨before, after, hstop, hblame⟩
  · obtain ⟨t, ht⟩ := hok htemplate
    refine ⟨⟨fun _ => htemplate, hok⟩, fun fault => ⟨?_, ?_⟩⟩
    · intro h
      cases ht.symm.trans h
    · rintro ⟨before, after, hstop, hblame⟩
      exact herror before after fault hstop hblame
  · obtain ⟨fault, hblame⟩ := hblame (byteLength before)
    have h := herror before after fault hstop hblame
    refine ⟨⟨?_, hok⟩, fun fault' => ⟨?_, ?_⟩⟩
    · rintro ⟨t, ht⟩
      cases h.symm.trans ht
    · intro h'
      cases h.symm.trans h'
      exact ⟨before, after, hstop, hblame⟩
    · rintro ⟨before, after, hstop, hblame⟩
      exact herror before after fault' hstop hblame

-- In both there is a brace to blame behind the slot, and an unknown name is blamed before a width.
example : Template.parse "ä\x7bnope:٣\x7d\x7d" = .error (.unknownField "nope" 2) := by cbv
example : Template.parse "ä\x7bmodule:<٣\x7d\x7d" = .error (.invalidWidth "٣" 11) := by cbv

end TraceViews
