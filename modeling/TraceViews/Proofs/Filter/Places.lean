import TraceViews.Proofs.Filter.Spelling

/-!
# The places of tokens

A scan finds its tokens one behind the other, each at the byte position where its characters stand
in the source. It ends behind the last character, or at the one where no token can be read
(`scanFrom_inPlace`). So the tokens in front of a place are those that the scan found before
(`tokensBefore_eq_of_token`).
-/

namespace TraceViews.Filter

open Text

/-- A scan of a text that begins at a byte position. -/
structure Scan.InPlace (start : Nat) (cs : List Char) (s : Scan) : Prop where
  /-- Every token has characters, and they stand at its place. -/
  token : ∀ t ∈ s.tokens, t.position < t.stop ∧
    ∃ before after, cs = before ++ t.lexeme ++ after ∧ t.position = start + byteLength before
  /-- Tokens do not overlap. -/
  ordered : s.tokens.Pairwise fun t u => t.stop ≤ u.position
  /-- A scan is complete behind the last character. -/
  complete : ∀ position, s.ending = .complete position → position = start + byteLength cs
  /-- A fault is found behind all tokens, at a character where no token can be read. -/
  broken : ∀ l, s.ending = .broken l → (∀ t ∈ s.tokens, t.stop ≤ l.position) ∧
    ∃ before c after, cs = before ++ c :: after ∧ l.position = start + byteLength before ∧
      isBlank c = false ∧ readLexeme c after = .error l.fault

namespace Scan.InPlace

variable {start : Nat} {chars cs : List Char} {s : Scan}

/-- A scan that begins further to the right. -/
theorem shift (h : s.InPlace (start + byteLength chars) cs) : s.InPlace start (chars ++ cs) where
  token := by
    intro t ht
    obtain ⟨hwidth, before, after, rfl, hposition⟩ := h.token t ht
    refine ⟨hwidth, chars ++ before, after, ?_, ?_⟩
    · simp only [List.append_assoc]
    · rw [hposition, byteLength_append, Nat.add_assoc]
  ordered := h.ordered
  complete := by
    intro position hend
    rw [h.complete position hend, byteLength_append, Nat.add_assoc]
  broken := by
    intro l hend
    obtain ⟨hstops, before, c, after, rfl, hposition, hc, hread⟩ := h.broken l hend
    refine ⟨hstops, chars ++ before, c, after, (List.append_assoc ..).symm, ?_, hc, hread⟩
    rw [hposition, byteLength_append, Nat.add_assoc]

theorem le_position (h : s.InPlace start cs) {t : Token} (ht : t ∈ s.tokens) :
    start ≤ t.position := by
  obtain ⟨-, before, after, -, hposition⟩ := h.token t ht
  rw [hposition]
  exact Nat.le_add_right ..

/-- A scan of nothing. -/
theorem ofEnd (start : Nat) : (Scan.mk [] (.complete start)).InPlace start [] where
  token := nofun
  ordered := .nil
  complete := by
    intro position hend
    cases hend
    rfl
  broken := nofun

/-- A scan that gets no further. -/
theorem ofFault {c : Char} {fault : Fault} (hc : isBlank c = false)
    (hread : readLexeme c cs = .error fault) :
    (Scan.mk [] (.broken ⟨fault, start⟩)).InPlace start (c :: cs) where
  token := nofun
  ordered := .nil
  complete := nofun
  broken := by
    intro l hend
    cases hend
    exact ⟨nofun, [], c, cs, rfl, rfl, hc, hread⟩

/-- A token in front of a scan. -/
theorem cons {kind : TokenKind} (hchars : 0 < byteLength chars)
    (h : s.InPlace (start + byteLength chars) cs) :
    (s.cons ⟨kind, chars, start⟩).InPlace start (chars ++ cs) where
  token := by
    refine List.forall_mem_cons.2 ⟨⟨Nat.lt_add_of_pos_right hchars, [], cs, rfl, rfl⟩, ?_⟩
    exact h.shift.token
  ordered := List.pairwise_cons.2 ⟨fun t ht => h.le_position ht, h.ordered⟩
  complete := h.shift.complete
  broken := by
    intro l hend
    obtain ⟨hstops, hplace⟩ := h.shift.broken l hend
    refine ⟨List.forall_mem_cons.2 ⟨?_, hstops⟩, hplace⟩
    obtain ⟨-, before, c, after, -, hposition, -⟩ := h.broken l hend
    rw [hposition]
    exact Nat.le_add_right ..

end Scan.InPlace

theorem byteLength_pos_of_readLexeme {c : Char} {cs : List Char} {l : Lexeme}
    (h : readLexeme c cs = .ok l) : 0 < byteLength l.chars := by
  obtain ⟨more, hchars⟩ := exists_chars_eq_cons h
  rw [hchars, byteLength_cons]
  exact Nat.add_pos_left c.utf8Size_pos _

/-- **A scan finds its tokens in their places.** -/
theorem scanFrom_inPlace (start : Nat) (cs : List Char) : (scanFrom start cs).InPlace start cs := by
  induction start, cs using scanFrom.induct with
  | case1 start =>
    rw [scanFrom]
    exact .ofEnd start
  | case2 start c cs hc ih =>
    rw [scanFrom_blank hc]
    have hwidth : byteLength [c] = c.utf8Size := Nat.add_zero _
    rw [← hwidth] at ih ⊢
    exact ih.shift
  | case3 start c cs hc fault hread =>
    have hblank := Bool.eq_false_iff.2 hc
    rw [scanFrom_fault hblank hread]
    exact .ofFault hblank hread
  | case4 start c cs hc l hread ih =>
    rw [scanFrom_lexeme (Bool.eq_false_iff.2 hc) hread, ← chars_append_rest hread]
    exact ih.cons (byteLength_pos_of_readLexeme hread)

/-- A token begins with a character that is not white space. -/
theorem exists_lexeme_of_mem_scanFrom {start : Nat} {cs : List Char} {t : Token}
    (ht : t ∈ (scanFrom start cs).tokens) : ∃ c more, t.lexeme = c :: more ∧ isBlank c = false := by
  induction start, cs using scanFrom.induct with
  | case1 start =>
    rw [scanFrom] at ht
    cases ht
  | case2 start c cs hc ih =>
    rw [scanFrom_blank hc] at ht
    exact ih ht
  | case3 start c cs hc fault hread =>
    rw [scanFrom_fault (Bool.eq_false_iff.2 hc) hread] at ht
    cases ht
  | case4 start c cs hc l hread ih =>
    rw [scanFrom_lexeme (Bool.eq_false_iff.2 hc) hread] at ht
    rcases List.mem_cons.1 ht with rfl | ht
    · obtain ⟨more, hchars⟩ := exists_chars_eq_cons hread
      exact ⟨c, more, hchars, Bool.eq_false_iff.2 hc⟩
    · exact ih ht

/-! ## The tokens in front of a place -/

/-- The tokens of a source that lie wholly before a byte position. -/
def tokensBefore (source : List Char) (position : Nat) : List Token :=
  (scan source).tokens.filter fun t => decide (t.stop ≤ position)

section TokensBefore

variable {source : List Char} {before after : List Token} {t : Token}

/-- In front of a token lie those that the scan found before it. -/
theorem tokensBefore_eq_of_token (h : (scan source).tokens = before ++ t :: after) :
    tokensBefore source t.position = before := by
  have hplace := scanFrom_inPlace 0 source
  have hordered := hplace.ordered
  have htoken := hplace.token
  rw [← scan, h] at hordered htoken
  obtain ⟨-, hrest, hbefore⟩ := List.pairwise_append.1 hordered
  rw [tokensBefore, h, List.filter_append]
  -- the token itself and those behind it end behind its place
  have hkept : before.filter (fun u => decide (u.stop ≤ t.position)) = before := by
    refine List.filter_eq_self.2 ?_
    intro u hu
    exact decide_eq_true (hbefore u hu t List.mem_cons_self)
  have hnone : (t :: after).filter (fun u => decide (u.stop ≤ t.position)) = [] := by
    refine List.filter_eq_nil_iff.2 ?_
    intro u hu hstop
    have hwidth := (htoken u (List.mem_append_right before hu)).1
    have hbehind : t.position ≤ u.position := by
      rcases List.mem_cons.1 hu with rfl | hu
      · exact Nat.le_refl _
      · have hself := (htoken t (List.mem_append_right before List.mem_cons_self)).1
        exact Nat.le_trans (Nat.le_of_lt hself) ((List.pairwise_cons.1 hrest).1 u hu)
    exact Nat.not_le.2 (Nat.lt_of_le_of_lt hbehind hwidth) (of_decide_eq_true hstop)
  rw [hkept, hnone, List.append_nil]

/-- In front of a place behind all tokens lie all of them. -/
theorem tokensBefore_eq_of_stops {position : Nat}
    (h : ∀ t ∈ (scan source).tokens, t.stop ≤ position) :
    tokensBefore source position = (scan source).tokens :=
  List.filter_eq_self.2 fun t ht => decide_eq_true (h t ht)

/-- In front of the end of a source lie all tokens. -/
theorem tokensBefore_byteLength (source : List Char) :
    tokensBefore source (byteLength source) = (scan source).tokens := by
  refine tokensBefore_eq_of_stops ?_
  intro t ht
  obtain ⟨-, before, after, hsource, hposition⟩ := (scanFrom_inPlace 0 source).token t ht
  rw [Token.stop, hposition, hsource, byteLength_append, byteLength_append, Nat.zero_add]
  exact Nat.le_add_right ..

end TokensBefore

end TraceViews.Filter
