import TraceViews.Proofs.Filter.Concatenation
import TraceViews.Proofs.Filter.Language

/-!
# No parenthesis of a print can be spared

Among the phrases for an expression in which every conjunction is spelled with its `and`, none has
fewer parentheses than the print (`Derives.count_openParen_le`). Without one of its pairs a print
still has each `and` and may still be a filter, but not one that stands for the same expression
(`parse_without_parentheses_ne`).

The `and`s have to be counted along with the parentheses: two filters one after the other are
conjoined without an `and`, and `a eq 1 or b eq 2 c eq 3` needs no parentheses, though the print of
its expression does.
-/

namespace TraceViews.Filter

/-! ## Conjunctions and their keywords -/

/-- The number of conjunctions in an expression. -/
def Expr.conjunctions : Expr → Nat
  | test _ => 0
  | not operand => operand.conjunctions
  | and left right => left.conjunctions + right.conjunctions + 1
  | or left right => left.conjunctions + right.conjunctions

/-- A comparison has neither an `and` nor a parenthesis. -/
theorem DerivesComparison.count_eq_zero {ts : List TokenKind} {c : Comparison} {t : TokenKind}
    (h : DerivesComparison ts c) (ht : t = .keyword .and ∨ t = .mark .openParen) :
    ts.count t = 0 := by
  rw [List.count_eq_zero]
  obtain rfl | rfl := ht
  · cases h with
    | within name h => cases h <;> simp
    | _ => simp
  · cases h with
    | within name h => cases h <;> simp
    | _ => simp

variable {p : Phrase} {ts us : List TokenKind} {e : Expr} {n : Nat}

/-- Up to disjunctions, every conjunction is spelled with an `and`. -/
theorem Derives.count_and_eq (h : Derives p ts e n) (hp : p ≠ .filter) :
    ts.count (.keyword .and) = e.conjunctions := by
  induction h with
  | test h => exact h.count_eq_zero (.inl rfl)
  | not h ih => simp [Expr.conjunctions, ih nofun]
  | group h ih => simp [ih nofun]
  | conjunct h ih => exact ih nofun
  | disjunct h ih => exact ih nofun
  | and hl hr ihl ihr =>
    simp [Expr.conjunctions, ihl nofun, ihr nofun]
    omega
  | or hl hr ihl ihr => simp [Expr.conjunctions, ihl nofun, ihr nofun]
  | whole h => exact absurd rfl hp
  | next hl hr => exact absurd rfl hp

theorem Derives.count_and_le (h : Derives .filter ts e n) :
    ts.count (.keyword .and) ≤ e.conjunctions := by
  generalize hp : Phrase.filter = p at h
  induction h with
  | whole h => exact Nat.le_of_eq (h.count_and_eq nofun)
  | next hl hr ihl =>
    have := ihl hp
    rw [List.count_append, hr.count_and_eq nofun, Expr.conjunctions]
    omega
  | _ => cases hp

/-- A filter that has an `and` for each conjunction is one disjunction. -/
theorem Derives.disjunction_of_count_and (h : Derives .filter ts e n)
    (hand : e.conjunctions ≤ ts.count (.keyword .and)) : Derives .disjunction ts e n := by
  cases h with
  | whole h => exact h
  | next hl hr =>
    have := hl.count_and_le
    rw [List.count_append, hr.count_and_eq nofun, Expr.conjunctions] at hand
    omega

/-! ## The fewest parentheses -/

/-- What a phrase demands of an operator that stands in it without parentheses. -/
def Phrase.demand : Phrase → Nat
  | operand => 3
  | conjunction => 2
  | disjunction => 1
  | filter => 0

theorem count_openParen_parenthesize (ts : List TokenKind) :
    (Expr.parenthesize ts).count (.mark .openParen) = ts.count (.mark .openParen) + 1 := by
  simp [Expr.parenthesize]

theorem count_openParen_keyword (ts us : List TokenKind) (k : Keyword) :
    (ts ++ .keyword k :: us).count (.mark .openParen)
      = ts.count (.mark .openParen) + us.count (.mark .openParen) := by
  simp

namespace Expr

/-- A place decides on the parentheses around an expression, and on nothing inside of it. -/
theorem tokensAt_eq (demand : Nat) (e : Expr) :
    e.tokensAt demand = if e.precedence < demand then parenthesize e.tokens else e.tokens := by
  cases e <;> rfl

theorem count_openParen_tokensAt (demand : Nat) (e : Expr) :
    (e.tokensAt demand).count (.mark .openParen)
      = e.tokens.count (.mark .openParen) + if e.precedence < demand then 1 else 0 := by
  rw [tokensAt_eq]
  split
  · exact count_openParen_parenthesize e.tokens
  · rfl

/-- A place that demands more has no fewer parentheses. -/
theorem count_openParen_mono {demand demand' : Nat} (h : demand ≤ demand') (e : Expr) :
    (e.tokensAt demand).count (.mark .openParen)
      ≤ (e.tokensAt demand').count (.mark .openParen) := by
  rw [count_openParen_tokensAt, count_openParen_tokensAt]
  split <;> split <;> omega

/-- No place has more than one parenthesis around an expression. -/
theorem count_openParen_le_succ (demand demand' : Nat) (e : Expr) :
    (e.tokensAt demand').count (.mark .openParen)
      ≤ (e.tokensAt demand).count (.mark .openParen) + 1 := by
  rw [count_openParen_tokensAt, count_openParen_tokensAt]
  split <;> omega

end Expr

/-- **A print has the fewest parentheses** of the phrases that stand for its expression in the same
place, if that is less than a whole filter. -/
theorem Derives.count_openParen_le (h : Derives p ts e n) (hp : p ≠ .filter) :
    (e.tokensAt p.demand).count (.mark .openParen) ≤ ts.count (.mark .openParen) := by
  induction h with
  | @test ts c h =>
    have hnone : c.tokens.count (.mark .openParen) = 0 :=
      (derivesComparison_tokens h.ne_within_numbers_nil).count_eq_zero (.inr rfl)
    exact Nat.le_trans (Nat.le_of_eq hnone) (Nat.zero_le _)
  | @not ts e n h ih =>
    have hprint : e.not.tokensAt 3 = [] ++ .keyword .not :: e.tokensAt 3 := rfl
    rw [Phrase.demand, hprint, ← List.nil_append (.keyword .not :: ts), count_openParen_keyword,
      count_openParen_keyword]
    exact Nat.add_le_add_left (ih nofun) _
  | @group ts e n h ih =>
    have hcount := count_openParen_parenthesize ts
    rw [Expr.parenthesize] at hcount
    rw [hcount]
    exact Nat.le_trans (e.count_openParen_le_succ 1 3) (Nat.succ_le_succ (ih nofun))
  | conjunct h ih =>
    exact Nat.le_trans (Expr.count_openParen_mono (by decide) _) (ih nofun)
  | disjunct h ih =>
    exact Nat.le_trans (Expr.count_openParen_mono (by decide) _) (ih nofun)
  | @and ts us e f n m hl hr ihl ihr =>
    have hprint : (e.and f).tokensAt 2 = e.tokensAt 2 ++ .keyword .and :: f.tokensAt 3 := rfl
    rw [Phrase.demand, hprint, count_openParen_keyword, count_openParen_keyword]
    exact Nat.add_le_add (ihl nofun) (ihr nofun)
  | @or ts us e f n m hl hr ihl ihr =>
    have hprint : (e.or f).tokensAt 1 = e.tokensAt 1 ++ .keyword .or :: f.tokensAt 2 := rfl
    rw [Phrase.demand, hprint, count_openParen_keyword, count_openParen_keyword]
    exact Nat.add_le_add (ihl nofun) (ihr nofun)
  | whole h => exact absurd rfl hp
  | next hl hr => exact absurd rfl hp

/-- No filter with the `and`s of a print, but fewer parentheses, stands for the same expression. -/
theorem not_stands_of_fewer {e : Expr}
    (h : ∀ c ∈ e.comparisons, ∀ name, c ≠ .within name (.numbers []))
    (hand : ts.count (.keyword .and) = e.tokens.count (.keyword .and))
    (hopen : ts.count (.mark .openParen) < e.tokens.count (.mark .openParen)) :
    ¬ Stands .filter ts e := by
  rintro ⟨n, hder⟩
  obtain ⟨-, -, ⟨m, -, hprint⟩⟩ := Expr.shallow_tokensAt h
  rw [← Expr.tokens_eq_tokensAt_one] at hprint
  rw [hprint.count_and_eq nofun] at hand
  have hfewest := (hder.disjunction_of_count_and (Nat.le_of_eq hand.symm)).count_openParen_le nofun
  rw [Phrase.demand, ← Expr.tokens_eq_tokensAt_one] at hfewest
  exact Nat.not_lt.2 hfewest hopen

/-! ## The text around a mark -/

namespace TokenKind

/-- What is printed between two sequences of tokens. -/
def gap (ts us : List TokenKind) : List Char :=
  match ts.getLast?, us.head? with
  | some t, some u => if t.spaced u then [' '] else []
  | _, _ => []

theorem gap_concat_cons (ts : List TokenKind) (t u : TokenKind) (us : List TokenKind) :
    gap (ts ++ [t]) (u :: us) = if t.spaced u then [' '] else [] := by
  rw [gap, List.getLast?_concat]
  rfl

theorem gap_eq (ts us : List TokenKind) : gap ts us = [] ∨ gap ts us = [' '] := by
  unfold gap
  split
  · split
    · exact .inr rfl
    · exact .inl rfl
  · exact .inl rfl

theorem spellAll_append (ts us : List TokenKind) :
    spellAll (ts ++ us) = spellAll ts ++ gap ts us ++ spellAll us := by
  induction ts using spellAll.induct with
  | case1 => rfl
  | case2 t =>
    cases us with
    | nil => simp [spellAll, gap]
    | cons u us => rfl
  | case3 t u ts ih =>
    have hgap : gap (t :: u :: ts) us = gap (u :: ts) us := by
      rw [gap, gap, List.getLast?_cons_cons]
    rw [List.cons_append, List.cons_append, spellAll, ← List.cons_append, ih, spellAll, hgap]
    simp only [List.append_assoc]

/-- What is printed in front of a mark that stands behind these tokens. -/
def front (ts : List TokenKind) (m : Mark) : List Char := spellAll ts ++ gap ts [.mark m]

/-- What is printed behind a mark that stands in front of these tokens. -/
def back (m : Mark) (ts : List TokenKind) : List Char := gap [.mark m] ts ++ spellAll ts

theorem spellAll_mark (ts : List TokenKind) (m : Mark) (us : List TokenKind) :
    spellAll (ts ++ .mark m :: us) = front ts m ++ m.spell :: back m us := by
  have hgap : gap ts (.mark m :: us) = gap ts [.mark m] := rfl
  have hmark : .mark m :: us = [.mark m] ++ us := rfl
  rw [spellAll_append, hgap, hmark, spellAll_append, front, back]
  simp only [List.append_assoc]
  rfl

/-- No space is printed in front of a closing parenthesis -/
theorem front_closeParen (ts : List TokenKind) : front ts .closeParen = spellAll ts := by
  have hspaced (t : TokenKind) : t.spaced (.mark .closeParen) = false := by
    cases t with
    | mark m => cases m <;> rfl
    | _ => rfl
  have hgap : gap ts [.mark .closeParen] = [] := by
    rw [gap]
    cases ts.getLast? with
    | none => rfl
    | some t => simp only [List.head?_cons, hspaced, Bool.false_eq_true, if_false]
  rw [front, hgap, List.append_nil]

/-- and none behind an opening one. -/
theorem back_openParen (ts : List TokenKind) : back .openParen ts = spellAll ts := by
  cases ts <;> rfl

end TokenKind

open TokenKind

theorem isWordChar_mark (m : Mark) : Text.isWordChar m.spell = false := by
  cases m <;> rfl

/-- Only marks stand close to the outside of a parenthesis. -/
theorem exists_mark_of_not_spaced {t : TokenKind}
    (h : t.spaced (.mark .openParen) = false ∨ (TokenKind.mark .closeParen).spaced t = false) :
    ∃ m, t = .mark m := by
  cases t with
  | mark m => exact ⟨m, rfl⟩
  | _ => rcases h with h | h <;> cases h

/-- In front of an opening parenthesis no word is open: another opening mark stands there, a space,
or nothing. -/
theorem parted_front (ts : List TokenKind) (cs : List Char) :
    Parted (front ts .openParen) cs := by
  rcases List.eq_nil_or_concat ts with rfl | ⟨ts, t, rfl⟩
  · exact .nil cs
  rw [List.concat_eq_append, front, gap_concat_cons]
  cases hspace : t.spaced (.mark .openParen) with
  | true =>
    rw [if_pos rfl]
    exact .of_concat rfl
  | false =>
    obtain ⟨m, rfl⟩ := exists_mark_of_not_spaced (.inl hspace)
    have hlast : back m [] = [] := rfl
    rw [if_neg Bool.false_ne_true, List.append_nil, spellAll_mark, hlast]
    exact .of_concat (isWordChar_mark m)

/-- Behind a closing one no word goes on: another closing mark stands there, a comma, a space, or
nothing. -/
theorem parted_back (cs : List Char) (ts : List TokenKind) :
    Parted cs (back .closeParen ts) := by
  cases ts with
  | nil => exact .to_nil cs
  | cons t ts =>
    rw [back, ← List.nil_append [_], gap_concat_cons]
    cases hspace : (TokenKind.mark .closeParen).spaced t with
    | true =>
      rw [if_pos rfl]
      exact .of_cons rfl
    | false =>
      obtain ⟨m, rfl⟩ := exists_mark_of_not_spaced (.inr hspace)
      rw [if_neg Bool.false_ne_true, List.nil_append, ← List.nil_append (_ :: ts), spellAll_mark]
      exact .of_cons (isWordChar_mark m)

theorem reads_gap (ts us : List TokenKind) : (scan (gap ts us)).Reads [] := by
  rcases gap_eq ts us with h | h
  · rw [h]
    exact reads_nil 0
  · rw [h]
    exact reads_blank rfl reads_nil 0

theorem parted_gap (ts us : List TokenKind) (cs : List Char) :
    Parted cs (gap ts us) ∧ Parted (gap ts us) cs := by
  rcases gap_eq ts us with h | h
  · rw [h]
    exact ⟨.to_nil cs, .nil cs⟩
  · have hblank : Parted ([] ++ [' ']) cs := .of_concat rfl
    rw [h]
    exact ⟨.of_cons rfl, hblank⟩

theorem reads_front {ts : List TokenKind} (h : ∀ t ∈ ts, t.Readable) (m : Mark) :
    (scan (front ts m)).Reads ts := by
  have := (reads_spellAll h 0).append (reads_gap ts [.mark m]) (parted_gap _ _ _).1
  rwa [List.append_nil] at this

theorem reads_back {ts : List TokenKind} (h : ∀ t ∈ ts, t.Readable) (m : Mark) :
    (scan (back m ts)).Reads ts :=
  (reads_gap [.mark m] ts).append (reads_spellAll h 0) (parted_gap _ _ _).2

/-- A mark behind a text that can be scanned to its end is a token. -/
theorem exists_tokens_of_mark {cs : List Char} {ts : List TokenKind} (h : (scan cs).Reads ts)
    (m : Mark) (ds : List Char) :
    ∃ after, (scan (cs ++ m.spell :: ds)).tokens
      = (scan cs).tokens ++ ⟨.mark m, [m.spell], Text.byteLength cs⟩ :: after := by
  obtain ⟨-, stop, hend⟩ := h
  have hparted : Parted cs (m.spell :: ds) := .of_cons (isWordChar_mark m)
  have hblank : Text.isBlank m.spell = false := by cases m <;> rfl
  rw [scan, scanFrom_append hend hparted,
    scanFrom_lexeme hblank (Lexes.mark m ds).readLexeme_eq, Nat.zero_add]
  exact ⟨_, rfl⟩

/-- **A mark of a print** parts its tokens as it parts its text. -/
theorem exists_tokens_of_spellAll {ts : List TokenKind} {before after : List Char} {m : Mark}
    (hts : ∀ t ∈ ts, t.Readable) (htext : spellAll ts = before ++ m.spell :: after)
    (hmark : ⟨.mark m, [m.spell], Text.byteLength before⟩ ∈ (scan (spellAll ts)).tokens) :
    ∃ us vs, ts = us ++ .mark m :: vs ∧ before = front us m ∧ after = back m vs := by
  obtain ⟨xs, ys, hsplit⟩ := List.append_of_mem hmark
  obtain ⟨us, hus⟩ : ∃ us, xs.map Token.kind = us := ⟨_, rfl⟩
  obtain ⟨vs, hvs⟩ : ∃ vs, ys.map Token.kind = vs := ⟨_, rfl⟩
  have hkinds : ts = us ++ .mark m :: vs := by
    obtain ⟨hreads, -⟩ := reads_spellAll hts 0
    rw [← hreads, ← scan, hsplit, List.map_append, List.map_cons, hus, hvs]
  refine ⟨us, vs, hkinds, ?_⟩
  rw [hkinds] at hts
  have hreads := reads_front (List.forall_mem_append.1 hts).1 m
  have hcut : spellAll ts = front us m ++ m.spell :: back m vs := by
    rw [hkinds, spellAll_mark]
  -- the mark is the token behind those of `us` in both of the texts
  obtain ⟨zs, hzs⟩ := exists_tokens_of_mark hreads m (back m vs)
  rw [← hcut, hsplit] at hzs
  have hlength : xs.length = (scan (front us m)).tokens.length := by
    have := congrArg List.length (hus.trans hreads.1.symm)
    rwa [List.length_map, List.length_map] at this
  obtain ⟨-, htokens⟩ := List.append_inj hzs hlength
  have hposition : Text.byteLength before = Text.byteLength (front us m) :=
    congrArg Token.position (List.cons.inj htokens).1
  obtain ⟨hbefore, hafter⟩ := Text.append_inj_of_byteLength (htext.symm.trans hcut) hposition
  exact ⟨hbefore, (List.cons.inj hafter).2⟩

/-! ## Pairs of parentheses -/

/-- An opening and a closing parenthesis of a text, each a token of it, with what stands before
them, between them and behind them. They need not be partners. -/
structure Grouped (text before inside after : List Char) : Prop where
  text_eq : text = before ++ '(' :: (inside ++ ')' :: after)
  opens : ⟨.mark .openParen, ['('], Text.byteLength before⟩ ∈ (scan text).tokens
  closes : ⟨.mark .closeParen, [')'], Text.byteLength (before ++ '(' :: inside)⟩ ∈
    (scan text).tokens

/-- A pair of parentheses parts the tokens of a print as it parts the text. -/
theorem Grouped.exists_tokens {ts : List TokenKind} {before inside after : List Char}
    (h : Grouped (spellAll ts) before inside after) (hts : ∀ t ∈ ts, t.Readable) :
    ∃ us vs ws, ts = us ++ .mark .openParen :: (vs ++ .mark .closeParen :: ws) ∧
      before = front us .openParen ∧ inside = spellAll vs ∧ after = back .closeParen ws := by
  obtain ⟨us, rest, hopen, hbefore, -⟩ := exists_tokens_of_spellAll hts h.text_eq h.opens
  have htext : spellAll ts = (before ++ '(' :: inside) ++ ')' :: after := by
    rw [h.text_eq, List.append_assoc, List.cons_append]
  obtain ⟨xs, ws, hclose, hfront, hafter⟩ := exists_tokens_of_spellAll hts htext h.closes
  rw [front_closeParen] at hfront
  rcases List.append_eq_append_iff.1 (hopen.symm.trans hclose) with
    ⟨vs, rfl, hvs⟩ | ⟨vs, rfl, -⟩
  · -- the closing parenthesis stands further behind
    cases vs with
    | nil => cases hvs
    | cons v vs =>
      obtain ⟨rfl, -⟩ := List.cons.inj hvs
      refine ⟨us, vs, ws, hclose.trans (List.append_assoc ..), hbefore, ?_, hafter⟩
      rw [spellAll_mark, hbefore, back_openParen] at hfront
      exact (List.cons.inj (List.append_cancel_left hfront)).2
  · -- it cannot stand in front, where the text is shorter
    rw [front, spellAll_append, ← hfront] at hbefore
    have hlength := congrArg List.length hbefore
    simp only [List.length_append, List.length_cons] at hlength
    omega

/-- **No pair of parentheses of a print can be left out**: what remains is refused, or parsed to
another expression. -/
theorem parse_without_parentheses_ne {e : Expr} {before inside after : List Char}
    (h : e.WellFormed) (hgroup : Grouped e.print.toList before inside after) :
    parse (String.ofList (before ++ inside ++ after)) ≠ .ok e := by
  intro hparse
  have hreadable := Expr.readable_of_mem_tokens h.identifiers h.lists
  rw [Expr.print, String.toList_ofList] at hgroup
  obtain ⟨us, vs, ws, htokens, rfl, rfl, rfl⟩ := hgroup.exists_tokens hreadable
  rw [htokens] at hreadable
  obtain ⟨hus, hreadable⟩ := List.forall_mem_append.1 hreadable
  obtain ⟨hvs, hreadable⟩ := List.forall_mem_append.1 (List.forall_mem_cons.1 hreadable).2
  have hws := (List.forall_mem_cons.1 hreadable).2
  -- the parentheses are the only tokens that are gone
  have hreads : (scan (front us .openParen ++ spellAll vs ++ back .closeParen ws)).Reads
      (us ++ vs ++ ws) :=
    ((reads_front hus _).append (reads_spellAll hvs 0) (parted_front us _)).append
      (reads_back hws _) (parted_back _ ws)
  obtain ⟨ts, n, hts, hder, -, -⟩ := exists_derives_of_parse hparse
  rw [String.toList_ofList] at hts
  obtain rfl : us ++ vs ++ ws = ts := hreads.1.symm.trans hts.1
  refine not_stands_of_fewer h.lists ?_ ?_ ⟨n, hder⟩
  · rw [htokens]
    simp
  · rw [htokens]
    simp

/-- On the right of an `and` the parentheses only tell how the conjunctions group. Those of the
string are none. -/
theorem parse_without_parentheses_of_nested :
    let test (name : String) (n : Int64) : Expr := .test (.eq name (.integer n))
    let e : Expr := .or (.and (.test (.eq "a" (.text "(x)"))) (.and (test "b" 2) (test "c" 3)))
      (test "d" 4)
    let before := "a eq \"(x)\" and ".toList
    let inside := "b eq 2 and c eq 3".toList
    let after := " or d eq 4".toList
    e.WellFormed ∧ Grouped e.print.toList before inside after ∧
      parse (String.ofList (before ++ inside ++ after)) ≠ .ok e := by
  intro test e before inside after
  have hparse : parse e.print = .ok e := eq_ok_of_toOption (by decide +kernel)
  have hwf := wellFormed_of_parse hparse
  have hgroup : Grouped e.print.toList before inside after :=
    ⟨by decide +kernel, by decide +kernel, by decide +kernel⟩
  exact ⟨hwf, hgroup, parse_without_parentheses_ne hwf hgroup⟩

end TraceViews.Filter
