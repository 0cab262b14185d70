import TraceViews.Proofs.Filter.Lexemes
import TraceViews.Proofs.Filter.Places

/-!
# Tokens tile their source

A source that is scanned falls into white space and the characters of its tokens, one behind the
other, up to its end or to a character where no token can be read (`Tiling`). There is one way to
tile a source, and a scan finds it (`scanFrom_eq_iff`). A reader that asks for one token at a time
is given the same tokens, and has them after at most as many calls as there are characters, and one
more (`tiles_of_scan`).
-/

namespace TraceViews.Filter

open Text

/-! ## Tilings -/

/-- Tokens that cover a text between a byte position and what is behind: white space, the characters
of a token, and so on, with white space at the end. -/
inductive Tiles (behind : List Char) : Nat → List Token → List Char → Prop where
  | blank {start : Nat} {gap : List Char} (hgap : Blank gap) : Tiles behind start [] gap
  | token {start : Nat} {gap covered : List Char} {t : Token} {tokens : List Token}
    (hgap : Blank gap) (hposition : t.position = start + byteLength gap)
    (hspells : Spells t.kind t.lexeme (covered ++ behind))
    (hrest : Tiles behind t.stop tokens covered) :
    Tiles behind start (t :: tokens) (gap ++ t.lexeme ++ covered)

/-- What a scan finds in a text that begins at a byte position: tokens that cover it, or tokens that
cover it up to a character where no token can be read, and why. -/
inductive Tiling (start : Nat) : List Char → Scan → Prop where
  | complete {source : List Char} {tokens : List Token} (h : Tiles [] start tokens source) :
    Tiling start source ⟨tokens, .complete (start + byteLength source)⟩
  | broken {before after : List Char} {tokens : List Token} {fault : Fault}
    (h : Tiles after start tokens before) (hhead : ∀ c ∈ after.head?, isBlank c = false)
    (hfault : Refuses fault after)
    (hnone : ∀ kind chars behind, after = chars ++ behind → ¬ Spells kind chars behind) :
    Tiling start (before ++ after) ⟨tokens, .broken ⟨fault, start + byteLength before⟩⟩

section Front

variable {start : Nat} {c : Char} {chars cs behind : List Char} {kind : TokenKind}
  {tokens : List Token} {s : Scan}

/-- White space in front. -/
theorem Tiles.cons_blank (h : Tiles behind (start + c.utf8Size) tokens cs)
    (hc : isBlank c = true) : Tiles behind start tokens (c :: cs) := by
  cases h with
  | blank hgap => exact .blank (List.forall_mem_cons.2 ⟨hc, hgap⟩)
  | @token _ gap covered t tokens hgap hposition hspells hrest =>
    have hplace : t.position = start + byteLength (c :: gap) := by
      rw [hposition, byteLength_cons, Nat.add_assoc]
    have htiles : Tiles behind start (t :: tokens) (c :: gap ++ t.lexeme ++ covered) :=
      .token (List.forall_mem_cons.2 ⟨hc, hgap⟩) hplace hspells hrest
    exact htiles

/-- A token in front. -/
theorem Tiles.cons_token (h : Tiles behind (start + byteLength chars) tokens cs)
    (hspells : Spells kind chars (cs ++ behind)) :
    Tiles behind start (⟨kind, chars, start⟩ :: tokens) (chars ++ cs) :=
  have htiles : Tiles behind start (⟨kind, chars, start⟩ :: tokens) ([] ++ chars ++ cs) :=
    .token (List.forall_mem_nil _) rfl hspells h
  htiles

theorem Tiling.cons_blank (h : Tiling (start + c.utf8Size) cs s) (hc : isBlank c = true) :
    Tiling start (c :: cs) s := by
  cases h with
  | complete h =>
    rw [Nat.add_assoc]
    exact .complete (h.cons_blank hc)
  | broken h hhead hfault hnone =>
    rw [Nat.add_assoc]
    exact .broken (h.cons_blank hc) hhead hfault hnone

theorem Tiling.cons_token (h : Tiling (start + byteLength chars) cs s)
    (hspells : Spells kind chars cs) :
    Tiling start (chars ++ cs) (s.cons ⟨kind, chars, start⟩) := by
  cases h with
  | complete h =>
    rw [Nat.add_assoc, ← byteLength_append]
    rw [← List.append_nil cs] at hspells
    exact .complete (h.cons_token hspells)
  | broken h hhead hfault hnone =>
    rw [Nat.add_assoc, ← byteLength_append, ← List.append_assoc]
    exact .broken (h.cons_token hspells) hhead hfault hnone

/-- A scan that gets no further. -/
theorem Tiling.ofFault {fault : Fault} (hc : isBlank c = false)
    (hread : readLexeme c cs = .error fault) :
    Tiling start (c :: cs) ⟨[], .broken ⟨fault, start⟩⟩ := by
  have hrefuses := readLexeme_eq_error_iff.1 hread
  have hhead : ∀ d ∈ (c :: cs).head?, isBlank d = false := by
    rintro _ ⟨⟩
    exact hc
  have hnone (kind : TokenKind) (chars behind : List Char) (htext : c :: cs = chars ++ behind) :
      ¬ Spells kind chars behind := by
    rw [htext] at hrefuses
    exact hrefuses.not_spells
  have htiling : Tiling start ([] ++ c :: cs) ⟨[], .broken ⟨fault, start + byteLength []⟩⟩ :=
    .broken (.blank (List.forall_mem_nil _)) hhead hrefuses hnone
  exact htiling

end Front

/-- **A scan tiles its text.** -/
theorem tiling_scanFrom (start : Nat) (cs : List Char) : Tiling start cs (scanFrom start cs) := by
  induction start, cs using scanFrom.induct with
  | case1 start =>
    rw [scanFrom]
    exact .complete (.blank (List.forall_mem_nil _))
  | case2 start c cs hc ih =>
    rw [scanFrom_blank hc]
    exact ih.cons_blank hc
  | case3 start c cs hc fault hread =>
    have hblank := Bool.eq_false_iff.2 hc
    rw [scanFrom_fault hblank hread]
    exact .ofFault hblank hread
  | case4 start c cs hc l hread ih =>
    rw [scanFrom_lexeme (Bool.eq_false_iff.2 hc) hread, ← chars_append_rest hread]
    exact ih.cons_token (readLexeme_eq_ok_iff.1 hread).2

/-! ## One tiling for each text -/

/-- What begins a token is no white space. -/
theorem isBlank_eq_false_of_readLexeme {c : Char} {cs : List Char} {l : Lexeme}
    (h : readLexeme c cs = .ok l) : isBlank c = false := by
  cases lexes_of_readLexeme h with
  | mark m => cases m <;> rfl
  | text => rfl
  | number hc =>
    rw [isNumberStart, Bool.or_eq_true, Bool.or_eq_true] at hc
    rcases hc with (hc | hc) | hc
    · have := toNat_of_isDigit hc
      exact isBlank_eq_false (by omega) (by omega)
    · rw [eq_of_beq hc]
      rfl
    · rw [eq_of_beq hc]
      rfl
  | word _ hc =>
    have := toNat_of_isWordStart hc
    exact isBlank_eq_false (by omega) (by omega)

theorem scanFrom_append_of_blank {gap : List Char} (hgap : Blank gap) (start : Nat)
    (cs : List Char) : scanFrom start (gap ++ cs) = scanFrom (start + byteLength gap) cs := by
  induction gap generalizing start with
  | nil => rfl
  | cons c gap ih =>
    obtain ⟨hc, hgap⟩ := List.forall_mem_cons.1 hgap
    rw [List.cons_append, scanFrom_blank hc, ih hgap, byteLength_cons, Nat.add_assoc]

theorem scanFrom_append_of_spells {kind : TokenKind} {chars behind : List Char}
    (h : Spells kind chars behind) (start : Nat) :
    scanFrom start (chars ++ behind)
      = (scanFrom (start + byteLength chars) behind).cons ⟨kind, chars, start⟩ := by
  obtain ⟨c, cs, hcs, hread⟩ := readLexeme_of_spells h
  rw [hcs, scanFrom_lexeme (isBlank_eq_false_of_readLexeme hread) hread]

/-- Tokens that cover the beginning of a text are found there, in front of what is found behind. -/
theorem Tiles.scanFrom_eq {behind covered : List Char} {start : Nat} {tokens : List Token}
    {s : Scan} (h : Tiles behind start tokens covered)
    (hbehind : scanFrom (start + byteLength covered) behind = s) :
    scanFrom start (covered ++ behind) = ⟨tokens ++ s.tokens, s.ending⟩ := by
  induction h with
  | blank hgap => rw [scanFrom_append_of_blank hgap, hbehind, List.nil_append]
  | @token start gap covered t tokens hgap hposition hspells _ ih =>
    have hstop : start + byteLength (gap ++ t.lexeme ++ covered) = t.stop + byteLength covered := by
      rw [byteLength_append, byteLength_append, Token.stop, hposition]
      omega
    rw [hstop] at hbehind
    rw [List.append_assoc, List.append_assoc, scanFrom_append_of_blank hgap, ← hposition,
      scanFrom_append_of_spells hspells, ← Token.stop, ih hbehind]
    rfl

/-- **A text has one tiling,** the one that a scan finds. -/
theorem scanFrom_eq_iff {start : Nat} {cs : List Char} {s : Scan} :
    scanFrom start cs = s ↔ Tiling start cs s := by
  constructor
  · rintro rfl
    exact tiling_scanFrom start cs
  · intro h
    cases h with
    | complete h =>
      have hscan := h.scanFrom_eq (scanFrom.eq_1 _)
      rwa [List.append_nil, List.append_nil] at hscan
    | broken h hhead hfault =>
      obtain ⟨c, after, rfl, hread⟩ := readLexeme_of_refuses hfault
      have hscan := h.scanFrom_eq (scanFrom_fault (hhead c rfl) hread)
      rwa [List.append_nil] at hscan

/-! ## Token by token -/

/-- The part of a source that has not been read: where it begins, and its characters. -/
structure Unread where
  position : Nat
  chars : List Char

/-- What a call for the next token gives: a token and what is unread behind it, or the ending. -/
inductive Pull where
  | token (t : Token) (left : Unread)
  | ending (e : Ending)

namespace Unread

/-- Asks for the next token. -/
def pull (u : Unread) : Pull :=
  let start := u.position + byteLength (u.chars.takeWhile isBlank)
  match u.chars.dropWhile isBlank with
  | [] => .ending (.complete start)
  | c :: cs =>
    match readLexeme c cs with
    | .error fault => .ending (.broken ⟨fault, start⟩)
    | .ok l => .token ⟨l.kind, l.chars, start⟩ ⟨start + byteLength l.chars, l.rest⟩

/-- Asks for the next token a number of times, but not after the ending. -/
def pulls : Nat → Unread → List Token × Option Ending
  | 0, _ => ([], none)
  | calls + 1, u =>
    match u.pull with
    | .ending e => ([], some e)
    | .token t left =>
      let (tokens, ending?) := pulls calls left
      (t :: tokens, ending?)

/-- All that is left is scanned by asking for its first token and scanning the rest. -/
theorem scanFrom_eq_of_pull (u : Unread) :
    scanFrom u.position u.chars =
      match u.pull with
      | .ending e => ⟨[], e⟩
      | .token t left => (scanFrom left.position left.chars).cons t := by
  have hblank : Blank (u.chars.takeWhile isBlank) := of_mem_takeWhile
  have hhead := head?_dropWhile_eq_false isBlank u.chars
  have hscan := scanFrom_append_of_blank hblank u.position (u.chars.dropWhile isBlank)
  rw [List.takeWhile_append_dropWhile] at hscan
  rw [hscan, pull]
  cases hrest : u.chars.dropWhile isBlank with
  | nil =>
    rw [scanFrom]
  | cons c cs =>
    have hc : isBlank c = false := hhead c (by rw [hrest]; rfl)
    cases hread : readLexeme c cs with
    | error fault => simp only [hread, scanFrom_fault hc hread]
    | ok l => simp only [hread, scanFrom_lexeme hc hread]

/-- **Tokens that are asked for** are those of the scan, and the ending comes behind the last. -/
theorem pulls_eq (calls : Nat) (u : Unread) :
    u.pulls calls = ((scanFrom u.position u.chars).tokens.take calls,
      if calls ≤ (scanFrom u.position u.chars).tokens.length then none
      else some (scanFrom u.position u.chars).ending) := by
  induction calls generalizing u with
  | zero => simp [pulls]
  | succ calls ih =>
    rw [pulls, u.scanFrom_eq_of_pull]
    cases hpull : u.pull with
    | ending e => simp
    | token t left => simp [ih left, Scan.cons]

end Unread

theorem length_tokens_scanFrom_le (start : Nat) (cs : List Char) :
    (scanFrom start cs).tokens.length ≤ cs.length := by
  induction start, cs using scanFrom.induct with
  | case1 start =>
    rw [scanFrom]
    exact Nat.le_refl 0
  | case2 start c cs hc ih =>
    rw [scanFrom_blank hc]
    exact Nat.le_succ_of_le ih
  | case3 start c cs hc fault hread =>
    rw [scanFrom_fault (Bool.eq_false_iff.2 hc) hread]
    exact Nat.zero_le _
  | case4 start c cs hc l hread ih =>
    rw [scanFrom_lexeme (Bool.eq_false_iff.2 hc) hread]
    exact Nat.succ_le_succ (Nat.le_trans ih (length_rest_le hread))

/-! ## Positions -/

namespace Ending

/-- Where a scan ends. -/
def position : Ending → Nat
  | complete position => position
  | broken l => l.position

end Ending

/-- A scan ends behind its tokens. -/
theorem Scan.InPlace.stop_le {start : Nat} {cs : List Char} {s : Scan} (h : s.InPlace start cs) :
    ∀ t ∈ s.tokens, t.stop ≤ s.ending.position := by
  intro t ht
  cases hend : s.ending with
  | complete position =>
    obtain ⟨-, before, after, hcs, hposition⟩ := h.token t ht
    show t.stop ≤ position
    rw [h.complete position hend, hcs, Token.stop, hposition, byteLength_append, byteLength_append]
    omega
  | broken l => exact (h.broken l hend).1 t ht

/-- **Positions increase** from token to token, up to the ending. -/
theorem Scan.InPlace.pairwise_positions {start : Nat} {cs : List Char} {s : Scan}
    (h : s.InPlace start cs) :
    (s.tokens.map Token.position ++ [s.ending.position]).Pairwise (· < ·) := by
  have hwidth (t : Token) (ht : t ∈ s.tokens) : t.position < t.stop := (h.token t ht).1
  refine List.pairwise_append.2 ⟨?_, List.pairwise_singleton .., ?_⟩
  · rw [List.pairwise_map]
    exact h.ordered.imp_of_mem fun {t u} ht _ hle => Nat.lt_of_lt_of_le (hwidth t ht) hle
  · intro p hp q hq
    obtain ⟨t, ht, rfl⟩ := List.mem_map.1 hp
    rw [List.mem_singleton.1 hq]
    exact Nat.lt_of_lt_of_le (hwidth t ht) (h.stop_le t ht)

/-- **Tokens tile their source.** The tokens of a scan are the only ones that cover the source with
white space between them, each spelled by its characters at its position, up to the end, or up to a
character where no token can be read. A reader that asks for one token at a time is given them, and
then the ending, in at most one call more than there are characters. Their positions increase, and
that of the ending is the last. -/
theorem tiles_of_scan (source : String) :
    (∀ s, scan source.toList = s ↔ Tiling 0 source.toList s) ∧
    (∃ calls ≤ source.length + 1, Unread.pulls calls ⟨0, source.toList⟩
      = ((scan source.toList).tokens, some (scan source.toList).ending)) ∧
    ((scan source.toList).tokens.map Token.position
      ++ [(scan source.toList).ending.position]).Pairwise (· < ·) := by
  have hlength : (scan source.toList).tokens.length ≤ source.length :=
    length_tokens_scanFrom_le 0 source.toList
  have hcalls := Unread.pulls_eq ((scan source.toList).tokens.length + 1) ⟨0, source.toList⟩
  rw [← scan, List.take_of_length_le (Nat.le_succ _), if_neg (Nat.not_succ_le_self _)] at hcalls
  exact ⟨fun s => scanFrom_eq_iff, ⟨_, Nat.succ_le_succ hlength, hcalls⟩,
    (scanFrom_inPlace 0 source.toList).pairwise_positions⟩

/-- A word, a number, a string and a number without white space between them, and a lone sign. -/
example : scan "x-1\"é\\q\"9 -".toList =
    ⟨[⟨.ident "x", ['x'], 0⟩, ⟨.number (-1), ['-', '1'], 1⟩,
      ⟨.text "é\\q", ['"', 'é', '\\', 'q', '"'], 3⟩, ⟨.number 9, ['9'], 9⟩],
      .broken ⟨.invalidNumber ['-'], 11⟩⟩ := by
  decide +kernel

end TraceViews.Filter
