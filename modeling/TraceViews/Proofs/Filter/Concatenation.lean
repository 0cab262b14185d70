import Mathlib.Data.List.TakeWhile
import TraceViews.Proofs.Filter.Spelling

/-!
# Scanning one text behind another

Tokens of two texts run together only where a word or a number at the end of the first one goes on
in the second. Where the texts are parted (`Parted`), a scan of both finds the tokens of the first,
if that can be scanned to its end, and then those of the second (`scanFrom_append`).
-/

namespace TraceViews.Filter

open Text

/-- No word goes on from one text into the next: the first ends, or the second begins, with no
letter, digit or underscore. -/
def Parted (cs ds : List Char) : Prop :=
  (∀ c ∈ cs.getLast?, isWordChar c = false) ∨ ∀ d ∈ ds.head?, isWordChar d = false

section Parted

variable {c : Char} {cs ds : List Char}

theorem Parted.nil (ds : List Char) : Parted [] ds := .inl nofun

theorem Parted.to_nil (cs : List Char) : Parted cs [] := .inr nofun

theorem Parted.of_concat (hc : isWordChar c = false) : Parted (cs ++ [c]) ds := by
  refine .inl ?_
  intro d hd
  rw [List.getLast?_concat] at hd
  cases hd
  exact hc

theorem Parted.of_cons (hc : isWordChar c = false) : Parted cs (c :: ds) := by
  refine .inr ?_
  intro d hd
  cases hd
  exact hc

/-- Only the end of the first text matters. -/
theorem Parted.of_append {before : List Char} (h : Parted (before ++ cs) ds) : Parted cs ds := by
  refine h.imp_left ?_
  intro hlast c hc
  refine hlast c ?_
  rw [List.getLast?_append, Option.mem_def.1 hc]
  rfl

/-- A run of digits or of word characters does not go on behind the text that it is in. -/
theorem Parted.span_append {p : Char → Bool} (h : Parted (c :: cs) ds)
    (hp : ∀ d, p d = true → isWordChar d = true) (hc : cs = [] → isWordChar c = true) :
    (cs ++ ds).takeWhile p = cs.takeWhile p ∧ (cs ++ ds).dropWhile p = cs.dropWhile p ++ ds := by
  have hstop : ∀ d ∈ (cs.dropWhile p ++ ds).head?, p d = false := by
    intro d hd
    cases hdrop : cs.dropWhile p with
    | cons x rest =>
      -- the run ends inside of the first text
      rw [hdrop] at hd
      cases hd
      simpa [hdrop] using List.head?_dropWhile_not p cs
    | nil =>
      -- the run reaches the end of the first text, which then ends like a word
      rw [hdrop] at hd
      have hlast : ¬ ∀ x ∈ (c :: cs).getLast?, isWordChar x = false := by
        intro hlast
        cases hend : cs.getLast? with
        | none =>
          cases List.getLast?_eq_none_iff.1 hend
          cases (hlast c rfl).symm.trans (hc rfl)
        | some x =>
          have hx := List.dropWhile_eq_nil_iff.1 hdrop x (List.mem_of_getLast? hend)
          have hx' : x ∈ (c :: cs).getLast? := by
            rw [List.getLast?_cons, hend]
            rfl
          cases (hlast x hx').symm.trans (hp x hx)
      rw [Bool.eq_false_iff]
      intro hd'
      cases (h.resolve_left hlast d hd).symm.trans (hp d hd')
  have hrun : ∀ d ∈ cs.takeWhile p, p d = true := Text.of_mem_takeWhile
  have hsplit := Text.takeWhile_append_stop hrun hstop
  rwa [← List.append_assoc, List.takeWhile_append_dropWhile] at hsplit

/-- A lone sign is no number. -/
theorem isWordChar_of_readInt64 {n : Int64} (hc : isNumberStart c = true)
    (h : readInt64 [c] = .ok n) : isWordChar c = true := by
  rw [isNumberStart, Bool.or_eq_true, Bool.or_eq_true] at hc
  rcases hc with (hc | hc) | hc
  · exact isWordChar_of_isDigit hc
  · rw [eq_of_beq hc] at h
    cases h
  · rw [eq_of_beq hc] at h
    cases h

/-- **A lexeme of the first text** is read as well where the second one follows. -/
theorem Lexes.append {l : Lexeme} (h : Lexes c cs l) (hparted : Parted (c :: cs) ds) :
    Lexes c (cs ++ ds) ⟨l.kind, l.chars, l.rest ++ ds⟩ := by
  cases h with
  | mark m => exact .mark m (cs ++ ds)
  | text hclose => exact .text (Quoted.close?_append hclose ds)
  | number hc hn =>
    obtain ⟨htake, hdrop⟩ := hparted.span_append (fun d => isWordChar_of_isDigit) <| by
      rintro rfl
      exact isWordChar_of_readInt64 hc hn
    rw [← htake] at hn
    have := Lexes.number hc hn
    rwa [htake, hdrop] at this
  | word cs hc =>
    obtain ⟨htake, hdrop⟩ := hparted.span_append (fun d => id) fun _ =>
      isWordChar_of_isWordStart hc
    have := Lexes.word (cs ++ ds) hc
    rwa [htake, hdrop] at this

end Parted

/-! ## Whole texts -/

/-- A scan, and behind it the scan of what follows. -/
def Scan.append (s t : Scan) : Scan := ⟨s.tokens ++ t.tokens, t.ending⟩

/-- **Two texts that are parted are scanned one after the other**, if the first can be scanned to
its end. -/
theorem scanFrom_append {position stop : Nat} {cs ds : List Char}
    (hend : (scanFrom position cs).ending = .complete stop) (hparted : Parted cs ds) :
    scanFrom position (cs ++ ds)
      = (scanFrom position cs).append (scanFrom (position + byteLength cs) ds) := by
  induction position, cs using scanFrom.induct with
  | case1 position =>
    rw [scanFrom]
    rfl
  | case2 position c cs hc ih =>
    have hrest : Parted ([c] ++ cs) ds := hparted
    rw [scanFrom_blank hc] at hend ⊢
    rw [List.cons_append, scanFrom_blank hc, ih hend hrest.of_append, byteLength_cons,
      Nat.add_assoc]
  | case3 position c cs hc fault hread =>
    rw [scanFrom_fault (Bool.eq_false_iff.2 hc) hread] at hend
    cases hend
  | case4 position c cs hc l hread ih =>
    have hblank := Bool.eq_false_iff.2 hc
    have htext := chars_append_rest hread
    rw [scanFrom_lexeme hblank hread] at hend ⊢
    have happend := (lexes_of_readLexeme hread).append hparted
    rw [List.cons_append, scanFrom_lexeme hblank happend.readLexeme_eq]
    rw [← htext] at hparted
    rw [ih hend hparted.of_append, ← htext, byteLength_append, Nat.add_assoc]
    rfl

/-- What kinds of tokens a text has does not depend on where it stands. -/
theorem Scan.Reads.move {position : Nat} {cs : List Char} {ts : List TokenKind}
    (h : (scanFrom position cs).Reads ts) (position' : Nat) : (scanFrom position' cs).Reads ts := by
  induction position, cs using scanFrom.induct generalizing ts position' with
  | case1 position =>
    rw [scanFrom] at h
    obtain ⟨rfl, -⟩ := h
    exact reads_nil position'
  | case2 position c cs hc ih =>
    rw [scanFrom_blank hc] at h
    exact reads_blank hc (ih h) position'
  | case3 position c cs hc fault hread =>
    rw [scanFrom_fault (Bool.eq_false_iff.2 hc) hread] at h
    obtain ⟨-, stop, hend⟩ := h
    cases hend
  | case4 position c cs hc l hread ih =>
    have hblank := Bool.eq_false_iff.2 hc
    rw [scanFrom_lexeme hblank hread] at h
    obtain ⟨rfl, hend⟩ := h
    exact reads_lexeme hblank hread (ih ⟨rfl, hend⟩) position'

/-- **The tokens of two texts that are parted.** -/
theorem Scan.Reads.append {cs ds : List Char} {ts us : List TokenKind} (h : (scan cs).Reads ts)
    (h' : (scan ds).Reads us) (hparted : Parted cs ds) : (scan (cs ++ ds)).Reads (ts ++ us) := by
  obtain ⟨rfl, stop, hend⟩ := h
  rw [scan, scanFrom_append hend hparted]
  obtain ⟨rfl, hend'⟩ := h'.move (0 + byteLength cs)
  exact ⟨List.map_append, hend'⟩

end TraceViews.Filter
