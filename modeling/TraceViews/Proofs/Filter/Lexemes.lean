import TraceViews.Proofs.Filter.Spelling
import TraceViews.Proofs.Text.Escapes

/-!
# How a token may be spelled

Which characters spell a token is told without reading them (`Spells`), and so is why a text begins
with no token (`Refuses`). Main statements: a lexeme is read at a character exactly if it spells its
token in front of the rest (`readLexeme_eq_ok_iff`), and otherwise the fault is exactly the one that
refuses the text (`readLexeme_eq_error_iff`).
-/

namespace TraceViews.Filter

open Text

/-- The characters of a token in front of a text. A word ends where no letter, digit or underscore
follows, and a number where no digit follows. -/
inductive Spells : TokenKind → List Char → List Char → Prop where
  | keyword (k : Keyword) {behind : List Char}
    (hstop : ∀ c ∈ behind.head?, isWordChar c = false) : Spells (.keyword k) k.spell.toList behind
  | ident {name : String} {behind : List Char} (hname : IsIdentifier name)
    (hstop : ∀ c ∈ behind.head?, isWordChar c = false) : Spells (.ident name) name.toList behind
  | number {n : Int64} {chars behind : List Char} (hchars : IsSigned n.toInt chars)
    (hstop : ∀ c ∈ behind.head?, c.isDigit = false) : Spells (.number n) chars behind
  | text {inside value : List Char} (behind : List Char) (h : Quoted.Denotes inside value) :
    Spells (.text (String.ofList value)) ('"' :: inside ++ ['"']) behind
  | mark (m : Mark) (behind : List Char) : Spells (.mark m) [m.spell] behind

/-- A character that no token begins with. -/
def StartsNoToken (c : Char) : Prop := ∀ kind more behind, ¬ Spells kind (c :: more) behind

/-- Why no token can be read at the beginning of a text: its first character starts none, a sign has
no digits, a number is out of the range, or a string is not closed. -/
inductive Refuses : Fault → List Char → Prop where
  | character {c : Char} (cs : List Char) (hc : StartsNoToken c) :
    Refuses (.invalidCharacter c) (c :: cs)
  | sign {c : Char} {cs : List Char} (hc : c = '-' ∨ c = '+')
    (hstop : ∀ d ∈ cs.head?, d.isDigit = false) : Refuses (.invalidNumber [c]) (c :: cs)
  | range {n : Int} {chars behind : List Char} (hchars : IsSigned n chars)
    (hout : n < Int64.minValue.toInt ∨ Int64.maxValue.toInt < n)
    (hstop : ∀ d ∈ behind.head?, d.isDigit = false) :
    Refuses (.invalidNumber chars) (chars ++ behind)
  | quote {cs : List Char} (h : Quoted.Unclosed cs) : Refuses .unterminatedString ('"' :: cs)

/-! ## The characters of a number -/

theorem isNumberStart_of_isDigit {c : Char} (h : c.isDigit = true) : isNumberStart c = true := by
  rw [isNumberStart, h, Bool.true_or, Bool.true_or]

/-- A number is a digit or a sign, then digits. -/
theorem exists_cons_of_isSigned {n : Int} {chars : List Char} (h : IsSigned n chars) :
    ∃ c digits, chars = c :: digits ∧ isNumberStart c = true ∧
      ∀ d ∈ digits, d.isDigit = true := by
  obtain ⟨digits, hdigits, ⟨-, rfl | rfl⟩ | ⟨-, rfl⟩⟩ := h
  · obtain ⟨c, cs, rfl⟩ := List.exists_cons_of_ne_nil hdigits.ne_nil
    obtain ⟨hc, hcs⟩ := List.forall_mem_cons.1 hdigits.isDigit
    exact ⟨c, cs, rfl, isNumberStart_of_isDigit hc, hcs⟩
  · exact ⟨'+', digits, rfl, rfl, hdigits.isDigit⟩
  · exact ⟨'-', digits, rfl, rfl, hdigits.isDigit⟩

/-- Of such characters, only a sign alone is no number. -/
theorem exists_isSigned_of_isNumberStart {c : Char} {digits : List Char}
    (hc : isNumberStart c = true) (hdigits : ∀ d ∈ digits, d.isDigit = true) :
    (∃ n, IsSigned n (c :: digits)) ∨ digits = [] ∧ (c = '-' ∨ c = '+') := by
  by_cases hdigit : c.isDigit = true
  · have hnumeral := isNumeral_ofDigitChars (List.cons_ne_nil c digits)
      (List.forall_mem_cons.2 ⟨hdigit, hdigits⟩)
    exact .inl ⟨(Nat.ofDigitChars 10 (c :: digits) 0 : Int), _, hnumeral,
      .inl ⟨Int.natCast_nonneg _, .inl rfl⟩⟩
  · have hsign : c = '-' ∨ c = '+' := by
      rw [isNumberStart, Bool.eq_false_iff.2 hdigit, Bool.false_or, Bool.or_eq_true] at hc
      exact hc.imp eq_of_beq eq_of_beq
    by_cases hempty : digits = []
    · exact .inr ⟨hempty, hsign⟩
    · have hnumeral := isNumeral_ofDigitChars hempty hdigits
      refine .inl ?_
      rcases hsign with rfl | rfl
      · exact ⟨-(Nat.ofDigitChars 10 digits 0 : Int), digits, by rwa [Int.natAbs_neg],
          .inr ⟨by omega, rfl⟩⟩
      · exact ⟨(Nat.ofDigitChars 10 digits 0 : Int), digits, hnumeral,
          .inl ⟨Int.natCast_nonneg _, .inr rfl⟩⟩

/-- A number that is not read is out of the range. -/
theorem out_of_range_of_readInt64 {n : Int} {chars : List Char} {fault : NumberFault}
    (h : IsSigned n chars) (hread : readInt64 chars = .error fault) :
    n < Int64.minValue.toInt ∨ Int64.maxValue.toInt < n := by
  have hlow : Int64.minValue.toInt = -2 ^ 63 := rfl
  have hhigh : Int64.maxValue.toInt = 2 ^ 63 - 1 := rfl
  by_contra hrange
  have hvalue : (Int64.ofInt n).toInt = n := Int64.toInt_ofInt_of_le (by omega) (by omega)
  rw [← hvalue, ← readInt64_eq_ok_iff] at h
  cases h.symm.trans hread

/-! ## Tokens -/

/-- What a word stands for is spelled by it. -/
theorem spells_ofWord {c : Char} {cs behind : List Char} (hc : isWordStart c = true)
    (hcs : ∀ d ∈ cs, isWordChar d = true) (hstop : ∀ d ∈ behind.head?, isWordChar d = false) :
    Spells (.ofWord (String.ofList (c :: cs))) (c :: cs) behind := by
  have hchars : (String.ofList (c :: cs)).toList = c :: cs := String.toList_ofList
  rw [TokenKind.ofWord]
  cases hword : Keyword.ofSpelling? (String.ofList (c :: cs)) with
  | some k =>
    rw [← Keyword.spell_of_ofSpelling? hword] at hchars
    rw [← hchars]
    exact .keyword k hstop
  | none =>
    have hname : IsIdentifier (String.ofList (c :: cs)) := by
      refine ⟨⟨c, cs, hchars, hc, hcs⟩, ?_⟩
      intro k hk
      rw [← hk, Keyword.ofSpelling?_spell] at hword
      cases hword
    have hspells := Spells.ident hname hstop
    rwa [hchars] at hspells

theorem spells_of_readLexeme {c : Char} {cs : List Char} {l : Lexeme}
    (h : readLexeme c cs = .ok l) : Spells l.kind l.chars l.rest := by
  cases lexes_of_readLexeme h with
  | mark m => exact .mark m cs
  | text hclose =>
    obtain ⟨-, value, hinside⟩ := Quoted.close?_eq_some_iff.1 hclose
    rw [hinside.decode_eq]
    exact .text _ hinside
  | number hc hn => exact .number (readInt64_eq_ok_iff.1 hn) (head?_dropWhile_eq_false _ cs)
  | word cs hc => exact spells_ofWord hc of_mem_takeWhile (head?_dropWhile_eq_false _ cs)

theorem readLexeme_of_spells {kind : TokenKind} {chars behind : List Char}
    (h : Spells kind chars behind) :
    ∃ c cs, chars ++ behind = c :: cs ∧ readLexeme c cs = .ok ⟨kind, chars, behind⟩ := by
  cases h with
  | keyword k hstop =>
    obtain ⟨c, cs, hcs, -, hread⟩ := readLexeme_spell (t := .keyword k) trivial (.inr hstop)
    exact ⟨c, cs, hcs, hread⟩
  | @ident name _ hname hstop =>
    obtain ⟨c, cs, hcs, -, hread⟩ := readLexeme_spell (t := .ident name) hname (.inr hstop)
    exact ⟨c, cs, hcs, hread⟩
  | mark m => exact ⟨m.spell, behind, rfl, (Lexes.mark m behind).readLexeme_eq⟩
  | @text inside value _ hinside =>
    refine ⟨'"', inside ++ '"' :: behind, by simp, ?_⟩
    have hclose : Quoted.close? (inside ++ '"' :: behind) = some (inside, behind) :=
      Quoted.close?_eq_some_iff.2 ⟨rfl, value, hinside⟩
    rw [(Lexes.text hclose).readLexeme_eq, hinside.decode_eq]
  | @number n _ _ hchars hstop =>
    obtain ⟨c, digits, rfl, hc, hdigits⟩ := exists_cons_of_isSigned hchars
    obtain ⟨htake, hdrop⟩ := takeWhile_append_stop hdigits hstop
    have hread : readInt64 (c :: (digits ++ behind).takeWhile Char.isDigit) = .ok n := by
      rw [htake]
      exact readInt64_eq_ok_iff.2 hchars
    have hlexeme := (Lexes.number hc hread).readLexeme_eq
    rw [htake, hdrop] at hlexeme
    exact ⟨c, digits ++ behind, rfl, hlexeme⟩

/-- **A lexeme is read** exactly if it spells its token in front of the rest. -/
theorem readLexeme_eq_ok_iff {c : Char} {cs : List Char} {l : Lexeme} :
    readLexeme c cs = .ok l ↔ l.chars ++ l.rest = c :: cs ∧ Spells l.kind l.chars l.rest := by
  constructor
  · intro h
    exact ⟨chars_append_rest h, spells_of_readLexeme h⟩
  · rintro ⟨htext, hspells⟩
    obtain ⟨c', cs', hcs, hread⟩ := readLexeme_of_spells hspells
    cases htext.symm.trans hcs
    exact hread

/-! ## Faults -/

theorem readLexeme_of_stray {c : Char} (hmark : Mark.ofChar? c = none) (hquote : c ≠ '"')
    (hnumber : isNumberStart c = false) (hword : isWordStart c = false) (cs : List Char) :
    readLexeme c cs = .error (.invalidCharacter c) := by
  simp only [readLexeme, hmark, if_neg hquote, hnumber, hword, Bool.false_eq_true, if_false]

theorem readLexeme_of_isNumberStart {c : Char} {digits behind : List Char} {fault : NumberFault}
    (hc : isNumberStart c = true) (hdigits : ∀ d ∈ digits, d.isDigit = true)
    (hstop : ∀ d ∈ behind.head?, d.isDigit = false)
    (h : readInt64 (c :: digits) = .error fault) :
    readLexeme c (digits ++ behind) = .error (.invalidNumber (c :: digits)) := by
  obtain ⟨hmark, hquote⟩ := ofChar?_eq_none_of_class (.inl hc)
  obtain ⟨htake, -⟩ := takeWhile_append_stop hdigits hstop
  simp only [readLexeme, hmark, if_neg hquote, hc, htake, h, if_true]

/-- Every digit begins a number, and so does a sign. -/
theorem not_startsNoToken_of_isNumberStart {c : Char} (h : isNumberStart c = true) :
    ¬ StartsNoToken c := by
  intro hnone
  by_cases hdigit : c.isDigit = true
  · have hcode := toNat_of_isDigit hdigit
    have hnumeral := isNumeral_ofDigitChars (List.cons_ne_nil c [])
      (List.forall_mem_singleton.2 hdigit)
    have hle : Nat.ofDigitChars 10 [c] 0 ≤ 9 := by
      have hzero : '0'.toNat = 48 := rfl
      rw [Nat.ofDigitChars_cons, Nat.ofDigitChars_nil]
      omega
    have hvalue : (Int64.ofInt (Nat.ofDigitChars 10 [c] 0)).toInt = Nat.ofDigitChars 10 [c] 0 :=
      Int64.toInt_ofInt_of_le (by omega) (by omega)
    refine hnone (.number (Int64.ofInt (Nat.ofDigitChars 10 [c] 0))) [] [] (.number ?_ nofun)
    rw [hvalue]
    exact ⟨[c], hnumeral, .inl ⟨Int.natCast_nonneg _, .inl rfl⟩⟩
  · have hzero : IsNumeral 0 ['0'] := ⟨0, rfl⟩
    rw [isNumberStart, Bool.eq_false_iff.2 hdigit, Bool.false_or, Bool.or_eq_true] at h
    rcases h with h | h
    · rw [eq_of_beq h] at hnone
      exact hnone (.number 0) ['0'] [] (.number ⟨['0'], hzero, .inr ⟨Int.le_refl 0, rfl⟩⟩ nofun)
    · rw [eq_of_beq h] at hnone
      exact hnone (.number 0) ['0'] []
        (.number ⟨['0'], hzero, .inl ⟨Int.le_refl 0, .inr rfl⟩⟩ nofun)

/-- **A character that starts no token** is of none of the classes that lexemes are told apart
by. -/
theorem StartsNoToken.readLexeme_eq {c : Char} (h : StartsNoToken c) (cs : List Char) :
    readLexeme c cs = .error (.invalidCharacter c) := by
  refine readLexeme_of_stray ?mark ?quote ?number ?word cs
  case mark =>
    refine Mark.ofChar?_eq_none ?_
    rintro m rfl
    exact h (.mark m) [] [] (.mark m [])
  case quote =>
    rintro rfl
    exact h (.text (String.ofList [])) ['"'] [] (.text [] .nil)
  case number =>
    rw [Bool.eq_false_iff]
    intro hc
    exact not_startsNoToken_of_isNumberStart hc h
  case word =>
    rw [Bool.eq_false_iff]
    intro hc
    exact h _ [] [] (spells_ofWord hc nofun nofun)

theorem refuses_of_readLexeme {c : Char} {cs : List Char} {fault : Fault}
    (h : readLexeme c cs = .error fault) : Refuses fault (c :: cs) := by
  simp only [readLexeme] at h
  split at h
  · cases h
  next hmark =>
  split at h
  · next hquote =>
    split at h
    · next hclose =>
      cases h
      rw [hquote]
      exact .quote (Quoted.close?_eq_none_iff.1 hclose)
    · cases h
  next hquote =>
  split at h
  · next hc =>
    split at h
    · cases h
    · next hread =>
      cases h
      have hstop := head?_dropWhile_eq_false Char.isDigit cs
      have hcs : cs.takeWhile Char.isDigit ++ cs.dropWhile Char.isDigit = cs :=
        List.takeWhile_append_dropWhile
      rcases exists_isSigned_of_isNumberStart hc of_mem_takeWhile with ⟨n, hn⟩ | ⟨hempty, hsign⟩
      · have hrange := Refuses.range hn (out_of_range_of_readInt64 hn hread) hstop
        rwa [List.cons_append, hcs] at hrange
      · rw [hempty, List.nil_append] at hcs
        rw [hcs] at hstop
        rw [hempty]
        exact .sign hsign hstop
  next hnumber =>
  split at h
  · cases h
  next hword =>
  cases h
  refine .character cs ?_
  intro kind more behind hspells
  -- what spells a token is read as that token, whatever the text
  obtain ⟨_, _, hcs, hread⟩ := readLexeme_of_spells hspells
  cases hcs
  rw [readLexeme_of_stray hmark hquote (Bool.eq_false_iff.2 hnumber) (Bool.eq_false_iff.2 hword)]
    at hread
  cases hread

theorem readLexeme_of_refuses {fault : Fault} {text : List Char} (h : Refuses fault text) :
    ∃ c cs, text = c :: cs ∧ readLexeme c cs = .error fault := by
  cases h with
  | @character c cs hc => exact ⟨c, cs, rfl, hc.readLexeme_eq cs⟩
  | @sign c cs hc hstop =>
    have hlone : isNumberStart c = true ∧ readInt64 [c] = .error .invalidDigit := by
      rcases hc with rfl | rfl
      · exact ⟨rfl, rfl⟩
      · exact ⟨rfl, rfl⟩
    exact ⟨c, cs, rfl, readLexeme_of_isNumberStart hlone.1 (List.forall_mem_nil _) hstop hlone.2⟩
  | @range n chars behind hchars hout hstop =>
    obtain ⟨c, digits, rfl, hc, hdigits⟩ := exists_cons_of_isSigned hchars
    have hread := readInt64_of_lt hchars hout
    exact ⟨c, digits ++ behind, rfl, readLexeme_of_isNumberStart hc hdigits hstop hread⟩
  | @quote cs hopen =>
    have hmark : Mark.ofChar? '"' = none := rfl
    refine ⟨'"', cs, rfl, ?_⟩
    simp only [readLexeme, hmark, Quoted.close?_eq_none_iff.2 hopen, if_true]

/-- **No lexeme is read** exactly for the reason that refuses the text. -/
theorem readLexeme_eq_error_iff {c : Char} {cs : List Char} {fault : Fault} :
    readLexeme c cs = .error fault ↔ Refuses fault (c :: cs) := by
  refine ⟨refuses_of_readLexeme, ?_⟩
  intro h
  obtain ⟨c', cs', hcs, hread⟩ := readLexeme_of_refuses h
  cases hcs
  exact hread

/-- **Where a text is refused**, nothing at its beginning spells a token. -/
theorem Refuses.not_spells {fault : Fault} {kind : TokenKind} {chars behind : List Char}
    (h : Refuses fault (chars ++ behind)) : ¬ Spells kind chars behind := by
  intro hspells
  obtain ⟨c, cs, hcs, hread⟩ := readLexeme_of_spells hspells
  rw [hcs, ← readLexeme_eq_error_iff] at h
  cases h.symm.trans hread

end TraceViews.Filter
