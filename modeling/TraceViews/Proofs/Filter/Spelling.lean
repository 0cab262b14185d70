import TraceViews.Filter.Expr.Printer
import TraceViews.Filter.Token.Scan
import TraceViews.Proofs.Text.Numerals

/-!
# Scanning spelled tokens

Tokens that are spelled one after the other, with a space where `TokenKind.spaced` wants one, are
found again by `scan` (`reads_spellAll`). That needs identifiers that are words and not reserved;
in turn every identifier that a scan finds is such a word (`isIdentifier_of_scan`).
-/

namespace TraceViews

namespace Filter

theorem isNumberStart_eq_false {c : Char} (h : Text.isWordStart c = true) :
    isNumberStart c = false := by
  have hc := Text.toNat_of_isWordStart h
  rw [Bool.eq_false_iff]
  intro hn
  rw [isNumberStart, Bool.or_eq_true, Bool.or_eq_true] at hn
  rcases hn with (hn | hn) | hn
  · have := Text.toNat_of_isDigit hn
    omega
  · rw [eq_of_beq hn] at h
    exact absurd h (by decide)
  · rw [eq_of_beq hn] at h
    exact absurd h (by decide)

theorem Mark.ofChar?_eq_none {c : Char} (h : ∀ m : Mark, m.spell ≠ c) : Mark.ofChar? c = none := by
  cases hc : Mark.ofChar? c with
  | none => rfl
  | some m => exact absurd (Mark.spell_of_ofChar? hc) (h m)

/-! ## One lexeme -/

/-- A word that is read as an identifier: a letter or an underscore, then letters, digits and
underscores, and no reserved word. -/
structure IsIdentifier (s : String) : Prop where
  word : ∃ c cs, s.toList = c :: cs ∧ Text.isWordStart c = true ∧
    ∀ d ∈ cs, Text.isWordChar d = true
  free : ∀ k : Keyword, k.spell ≠ s

namespace TokenKind

/-- The tokens that a scan can find: an identifier has to be a free word. -/
def Readable : TokenKind → Prop
  | ident name => IsIdentifier name
  | _ => True

/-- The text that may follow a token without becoming a part of it: any text after a mark, and a
text that does not go on like a word after the others. -/
def Stops (t : TokenKind) (rest : List Char) : Prop :=
  (∃ m, t = mark m) ∨ ∀ c ∈ rest.head?, Text.isWordChar c = false

theorem ofWord_spell (k : Keyword) : ofWord k.spell = keyword k := by
  rw [ofWord, Keyword.ofSpelling?_spell]

theorem ofWord_of_free {s : String} (h : ∀ k : Keyword, k.spell ≠ s) : ofWord s = ident s := by
  rw [ofWord]
  cases hs : Keyword.ofSpelling? s with
  | none => rfl
  | some k => exact absurd (Keyword.spell_of_ofSpelling? hs) (h k)

end TokenKind

/-- How a lexeme is read: a mark is one character, a string goes up to the quote that closes it, a
number up to the last digit and a word up to the last word character. -/
inductive Lexes : Char → List Char → Lexeme → Prop where
  | mark (m : Mark) (cs : List Char) : Lexes m.spell cs ⟨.mark m, [m.spell], cs⟩
  | text {cs inside rest : List Char} (h : Text.Quoted.close? cs = some (inside, rest)) :
    Lexes '"' cs
      ⟨.text (String.ofList (Text.Quoted.decode inside)), '"' :: inside ++ ['"'], rest⟩
  | number {c : Char} {cs : List Char} {n : Int64} (hc : isNumberStart c = true)
    (h : Text.readInt64 (c :: cs.takeWhile Char.isDigit) = .ok n) :
    Lexes c cs ⟨.number n, c :: cs.takeWhile Char.isDigit, cs.dropWhile Char.isDigit⟩
  | word {c : Char} (cs : List Char) (hc : Text.isWordStart c = true) :
    Lexes c cs ⟨.ofWord (String.ofList (c :: cs.takeWhile Text.isWordChar)),
      c :: cs.takeWhile Text.isWordChar, cs.dropWhile Text.isWordChar⟩

theorem lexes_of_readLexeme {c : Char} {cs : List Char} {l : Lexeme}
    (h : readLexeme c cs = .ok l) : Lexes c cs l := by
  simp only [readLexeme] at h
  split at h
  · next m hm =>
    cases h
    rw [← Mark.spell_of_ofChar? hm]
    exact .mark m cs
  split at h
  · next hc =>
    split at h
    · cases h
    · next hclose =>
      cases h
      rw [hc]
      exact .text hclose
  split at h
  · next hc =>
    split at h
    · next hn =>
      cases h
      exact .number hc hn
    · cases h
  split at h
  · next hc =>
    cases h
    exact .word cs hc
  · cases h

/-- A number and a word begin with no mark and no quote. -/
theorem ofChar?_eq_none_of_class {c : Char}
    (h : isNumberStart c = true ∨ Text.isWordStart c = true) :
    Mark.ofChar? c = none ∧ c ≠ '"' := by
  refine ⟨Mark.ofChar?_eq_none ?_, ?_⟩
  · rintro m rfl
    cases m <;> exact absurd h (by decide)
  · rintro rfl
    exact absurd h (by decide)

/-- The classes of first characters exclude each other, so the order in which they are tried does
not matter. -/
theorem Lexes.readLexeme_eq {c : Char} {cs : List Char} {l : Lexeme} (h : Lexes c cs l) :
    readLexeme c cs = .ok l := by
  cases h with
  | mark m => rw [readLexeme, Mark.ofChar?_spell]
  | text hclose =>
    have hmark : Mark.ofChar? '"' = none := rfl
    simp only [readLexeme, hmark, hclose, if_true]
  | number hc hn =>
    obtain ⟨hmark, hquote⟩ := ofChar?_eq_none_of_class (.inl hc)
    simp only [readLexeme, hmark, if_neg hquote, hc, hn, if_true]
  | word cs hc =>
    obtain ⟨hmark, hquote⟩ := ofChar?_eq_none_of_class (.inr hc)
    simp only [readLexeme, hmark, if_neg hquote, isNumberStart_eq_false hc, hc, if_true,
      Bool.false_eq_true, if_false]

theorem readLexeme_quote (s : String) (rest : List Char) :
    readLexeme '"' (Text.Quoted.encode s.toList ++ '"' :: rest)
      = .ok ⟨.text s, (TokenKind.text s).spell, rest⟩ := by
  have h := (Lexes.text (Text.Quoted.close?_encode s.toList rest)).readLexeme_eq
  rwa [Text.Quoted.decode_encode, String.ofList_toList] at h

theorem readLexeme_word {s : String} {c : Char} {cs rest : List Char} (hs : s.toList = c :: cs)
    (hc : Text.isWordStart c = true) (hcs : ∀ d ∈ cs, Text.isWordChar d = true)
    (hrest : ∀ d ∈ rest.head?, Text.isWordChar d = false) :
    readLexeme c (cs ++ rest) = .ok ⟨.ofWord s, s.toList, rest⟩ := by
  obtain ⟨htake, hdrop⟩ := Text.takeWhile_append_stop hcs hrest
  have h := (Lexes.word (cs ++ rest) hc).readLexeme_eq
  rwa [htake, hdrop, ← hs, String.ofList_toList] at h

theorem readLexeme_number (n : Int64) {c : Char} {cs rest : List Char}
    (hn : Text.intDigits n.toInt = c :: cs) (hc : isNumberStart c = true)
    (hcs : ∀ d ∈ cs, d.isDigit = true) (hrest : ∀ d ∈ rest.head?, d.isDigit = false) :
    readLexeme c (cs ++ rest) = .ok ⟨.number n, Text.intDigits n.toInt, rest⟩ := by
  obtain ⟨htake, hdrop⟩ := Text.takeWhile_append_stop hcs hrest
  have hread : Text.readInt64 (c :: (cs ++ rest).takeWhile Char.isDigit) = .ok n := by
    rw [htake, ← hn, Text.readInt64_intDigits]
  have h := (Lexes.number hc hread).readLexeme_eq
  rwa [htake, hdrop, ← hn] at h

/-- The characters of a number: a digit or a sign, then digits. -/
theorem exists_intDigits (n : Int) :
    ∃ c cs, Text.intDigits n = c :: cs ∧ isNumberStart c = true ∧ Text.isBlank c = false ∧
      ∀ d ∈ cs, d.isDigit = true := by
  cases n with
  | ofNat k =>
    obtain ⟨c, cs, hcs⟩ := List.exists_cons_of_ne_nil (Text.natDigits_ne_nil k)
    have hd : ∀ d ∈ c :: cs, d.isDigit = true := by
      intro d hd
      rw [← hcs] at hd
      exact Text.isDigit_of_mem_natDigits hd
    obtain ⟨hc, hcs'⟩ := List.forall_mem_cons.1 hd
    have hnat := Text.toNat_of_isDigit hc
    refine ⟨c, cs, hcs, ?_, Text.isBlank_eq_false (by omega) (by omega), hcs'⟩
    rw [isNumberStart, hc, Bool.true_or, Bool.true_or]
  | negSucc k =>
    exact ⟨'-', _, rfl, rfl, rfl, fun d => Text.isDigit_of_mem_natDigits⟩

/-- **A spelled token is read as that token**, if what follows does not go on with it. -/
theorem readLexeme_spell {t : TokenKind} {rest : List Char} (ht : t.Readable) (hr : t.Stops rest) :
    ∃ c cs, t.spell ++ rest = c :: cs ∧ Text.isBlank c = false ∧
      readLexeme c cs = .ok ⟨t, t.spell, rest⟩ := by
  cases t with
  | mark m =>
    refine ⟨m.spell, rest, rfl, ?_, (Lexes.mark m rest).readLexeme_eq⟩
    cases m <;> rfl
  | text s =>
    refine ⟨'"', Text.Quoted.encode s.toList ++ '"' :: rest, ?_, rfl, readLexeme_quote s rest⟩
    rw [TokenKind.spell, List.cons_append, List.cons_append, List.append_assoc]
    rfl
  | ident name =>
    obtain ⟨⟨c, cs, hname, hc, hcs⟩, hfree⟩ := ht
    have hrest := hr.resolve_left (by rintro ⟨m, hm⟩; cases hm)
    have hnat := Text.toNat_of_isWordStart hc
    refine ⟨c, cs ++ rest, ?_, Text.isBlank_eq_false (by omega) (by omega), ?_⟩
    · rw [TokenKind.spell, hname, List.cons_append]
    · rw [readLexeme_word hname hc hcs hrest, TokenKind.ofWord_of_free hfree]
      rfl
  | keyword k =>
    have hrest := hr.resolve_left (by rintro ⟨m, hm⟩; cases hm)
    have hword : ∃ c cs, k.spell.toList = c :: cs ∧ Text.isWordStart c = true ∧
        Text.isBlank c = false ∧ ∀ d ∈ cs, Text.isWordChar d = true := by
      cases k <;> exact ⟨_, _, rfl, rfl, rfl, List.all_eq_true.1 rfl⟩
    obtain ⟨c, cs, hk, hc, hblank, hcs⟩ := hword
    refine ⟨c, cs ++ rest, ?_, hblank, ?_⟩
    · rw [TokenKind.spell, hk, List.cons_append]
    · rw [readLexeme_word hk hc hcs hrest, TokenKind.ofWord_spell]
      rfl
  | number n =>
    have hrest := hr.resolve_left (by rintro ⟨m, hm⟩; cases hm)
    obtain ⟨c, cs, hn, hc, hblank, hcs⟩ := exists_intDigits n.toInt
    refine ⟨c, cs ++ rest, ?_, hblank, readLexeme_number n hn hc hcs ?_⟩
    · rw [TokenKind.spell, hn, List.cons_append]
    · intro d hd
      rw [Bool.eq_false_iff]
      intro hdigit
      -- what stops a word stops a number
      have := Text.isWordChar_of_isDigit hdigit
      rw [hrest d hd] at this
      cases this

/-! ## Whole texts -/

theorem scanFrom_blank {position : Nat} {c : Char} {cs : List Char} (h : Text.isBlank c = true) :
    scanFrom position (c :: cs) = scanFrom (position + c.utf8Size) cs := by
  rw [scanFrom, if_pos h]

theorem scanFrom_lexeme {position : Nat} {c : Char} {cs : List Char} {l : Lexeme}
    (hc : Text.isBlank c = false) (h : readLexeme c cs = .ok l) :
    scanFrom position (c :: cs) = (scanFrom (position + Text.byteLength l.chars) l.rest).cons
      ⟨l.kind, l.chars, position⟩ := by
  rw [scanFrom, if_neg (Bool.eq_false_iff.1 hc)]
  split
  · next heq =>
    rw [heq] at h
    cases h
  · next heq =>
    rw [heq] at h
    cases h
    rfl

theorem scanFrom_fault {position : Nat} {c : Char} {cs : List Char} {fault : Fault}
    (hc : Text.isBlank c = false) (h : readLexeme c cs = .error fault) :
    scanFrom position (c :: cs) = ⟨[], .broken ⟨fault, position⟩⟩ := by
  rw [scanFrom, if_neg (Bool.eq_false_iff.1 hc)]
  split
  · next heq =>
    rw [heq] at h
    cases h
    rfl
  · next heq =>
    rw [heq] at h
    cases h

/-- A scan that gets to the end of its source finds tokens of these kinds. -/
def Scan.Reads (s : Scan) (ts : List TokenKind) : Prop :=
  s.tokens.map Token.kind = ts ∧ ∃ position, s.ending = .complete position

section Reads

variable {c : Char} {cs : List Char} {ts : List TokenKind}

theorem reads_nil (position : Nat) : (scanFrom position []).Reads [] := by
  rw [scanFrom]
  exact ⟨rfl, position, rfl⟩

theorem reads_blank (hc : Text.isBlank c = true)
    (h : ∀ position, (scanFrom position cs).Reads ts) (position : Nat) :
    (scanFrom position (c :: cs)).Reads ts := by
  rw [scanFrom_blank hc]
  exact h _

theorem reads_lexeme {t : TokenKind} {chars rest : List Char} (hc : Text.isBlank c = false)
    (hl : readLexeme c cs = .ok ⟨t, chars, rest⟩)
    (h : ∀ position, (scanFrom position rest).Reads ts) (position : Nat) :
    (scanFrom position (c :: cs)).Reads (t :: ts) := by
  rw [scanFrom_lexeme hc hl]
  obtain ⟨hts, hend⟩ := h (position + Text.byteLength chars)
  exact ⟨congrArg (t :: ·) hts, hend⟩

theorem reads_spell_append {t : TokenKind} {rest : List Char} (ht : t.Readable)
    (hr : t.Stops rest) (h : ∀ position, (scanFrom position rest).Reads ts) (position : Nat) :
    (scanFrom position (t.spell ++ rest)).Reads (t :: ts) := by
  obtain ⟨c, cs, hcs, hc, hread⟩ := readLexeme_spell ht hr
  rw [hcs]
  exact reads_lexeme hc hread h position

end Reads

/-- No space stands behind an opening mark or before a closing mark or a comma, and there the
tokens do not run together. -/
theorem stops_of_not_spaced {t u : TokenKind} (h : t.spaced u = false) (rest : List Char) :
    t.Stops (u.spell ++ rest) := by
  rw [TokenKind.spaced.eq_def] at h
  split at h
  · exact .inl ⟨_, rfl⟩
  · exact .inl ⟨_, rfl⟩
  · refine .inr ?_
    intro c hc
    cases hc
    rfl
  · refine .inr ?_
    intro c hc
    cases hc
    rfl
  · refine .inr ?_
    intro c hc
    cases hc
    rfl
  · cases h

/-- **Spelled tokens are scanned** as the same tokens. -/
theorem reads_spellAll {ts : List TokenKind} (h : ∀ t ∈ ts, t.Readable) (position : Nat) :
    (scanFrom position (TokenKind.spellAll ts)).Reads ts := by
  -- a token at the end, before a space, and before another token
  induction ts using TokenKind.spellAll.induct generalizing position with
  | case1 => exact reads_nil position
  | case2 t =>
    obtain ⟨ht, -⟩ := List.forall_mem_cons.1 h
    rw [TokenKind.spellAll, ← List.append_nil t.spell]
    refine reads_spell_append ht (.inr ?_) reads_nil position
    intro c hc
    cases hc
  | case3 t u ts ih =>
    obtain ⟨ht, hts⟩ := List.forall_mem_cons.1 h
    rw [TokenKind.spellAll, List.append_assoc]
    by_cases hspace : t.spaced u = true
    · rw [if_pos hspace]
      refine reads_spell_append ht (.inr ?_) (reads_blank rfl (ih hts)) position
      intro c hc
      cases hc
      rfl
    · rw [if_neg hspace, List.nil_append]
      -- where the next token follows at once, the two do not run together
      have hstop := fun rest => stops_of_not_spaced (Bool.eq_false_iff.2 hspace) rest
      refine reads_spell_append ht ?_ (ih hts) position
      cases ts with
      | nil =>
        rw [TokenKind.spellAll, ← List.append_nil u.spell]
        exact hstop []
      | cons v ts =>
        rw [TokenKind.spellAll, List.append_assoc]
        exact hstop _

/-! ## Identifiers of a source -/

theorem isIdentifier_of_readLexeme {c : Char} {cs : List Char} {l : Lexeme} {name : String}
    (h : readLexeme c cs = .ok l) (hl : l.kind = .ident name) : IsIdentifier name := by
  cases lexes_of_readLexeme h with
  | mark => cases hl
  | text => cases hl
  | number => cases hl
  | word cs hc =>
    -- the word is the identifier unless it is reserved
    rw [TokenKind.ofWord] at hl
    split at hl
    · cases hl
    · next hfree =>
      cases hl
      refine ⟨⟨c, cs.takeWhile Text.isWordChar, String.toList_ofList, hc, ?_⟩, ?_⟩
      · intro d hd
        exact Text.of_mem_takeWhile d hd
      · intro k hk
        rw [← hk, Keyword.ofSpelling?_spell] at hfree
        cases hfree

/-- **Every identifier of a source is a free word.** -/
theorem isIdentifier_of_scanFrom (position : Nat) (cs : List Char) {name : String}
    (h : .ident name ∈ (scanFrom position cs).tokens.map Token.kind) : IsIdentifier name := by
  induction position, cs using scanFrom.induct with
  | case1 position =>
    rw [scanFrom] at h
    cases h
  | case2 position c cs hc ih =>
    rw [scanFrom_blank hc] at h
    exact ih h
  | case3 position c cs hc fault hread =>
    rw [scanFrom_fault (Bool.eq_false_iff.2 hc) hread] at h
    cases h
  | case4 position c cs hc l hread ih =>
    rw [scanFrom_lexeme (Bool.eq_false_iff.2 hc) hread, Scan.cons, List.map_cons] at h
    rcases List.mem_cons.1 h with hl | h
    · exact isIdentifier_of_readLexeme hread hl.symm
    · exact ih h

end Filter

end TraceViews
