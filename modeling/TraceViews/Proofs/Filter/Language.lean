import TraceViews.Proofs.Filter.Parse

/-!
# The language of filters

Which sources are parsed, and to what: the sources of the grammar, as long as they are not too
deep. Printed expressions are among them if they can be spelled at all (`Expr.WellFormed`).
-/

namespace TraceViews.Filter

/-! ## Spellings of expressions -/

namespace Expr

/-- What can be told in the language of filters: the fields have identifiers for names, a list of
numbers is not empty, and the height is within the limit. -/
structure WellFormed (e : Expr) : Prop where
  identifiers : ∀ c ∈ e.comparisons, IsIdentifier c.name
  lists : ∀ c ∈ e.comparisons, ∀ name, c ≠ .within name (.numbers [])
  height : e.height ≤ maxDepth

variable {e : Expr}

/-- The tokens of an expression can be read if the names in it can. -/
theorem readable_of_mem_tokens (hid : ∀ c ∈ e.comparisons, IsIdentifier c.name)
    (hlist : ∀ c ∈ e.comparisons, ∀ name, c ≠ .within name (.numbers [])) :
    ∀ t ∈ e.tokens, t.Readable := by
  intro t ht
  cases t with
  | ident name =>
    obtain ⟨n, -, h⟩ := derives_tokens hlist
    obtain ⟨c, hc, rfl⟩ := (h.ident_mem_iff name).1 ht
    exact hid c hc
  | _ => trivial

/-- The print of an expression is scanned to the tokens it was printed from. -/
theorem reads_print (hid : ∀ c ∈ e.comparisons, IsIdentifier c.name)
    (hlist : ∀ c ∈ e.comparisons, ∀ name, c ≠ .within name (.numbers [])) :
    (scan e.print.toList).Reads e.tokens := by
  rw [print, String.toList_ofList]
  exact reads_spellAll (readable_of_mem_tokens hid hlist) 0

theorem comparisons_negated (n : Nat) (e : Expr) : (negated n e).comparisons = e.comparisons := by
  induction n with
  | zero => rfl
  | succ n ih =>
    rw [negated_succ]
    exact ih

end Expr

/-! ## Which sources are filters -/

/-- **Parsing accepts the grammar, within the limits.** A source is parsed to an expression if and
only if it can be scanned to its end, the grammar derives the expression from the tokens, and
neither its height nor the number of `not`s and parentheses open at a time is above the limit. A
source of the grammar that breaks a limit is refused for that. -/
theorem parse_eq_ok_iff_derives :
    (∀ source e, parse source = .ok e ↔
      ∃ ts n, (scan source.toList).Reads ts ∧ Derives .filter ts e n ∧
        e.height ≤ maxDepth ∧ n ≤ maxDepth) ∧
    ∀ source ts e n, (scan source.toList).Reads ts → Derives .filter ts e n →
      maxDepth < e.height ∨ maxDepth < n →
      ∃ x, parse source = .error x ∧ x.fault = .tooDeep maxDepth := by
  refine ⟨?_, ?_⟩
  · intro source e
    refine ⟨exists_derives_of_parse, ?_⟩
    rintro ⟨ts, n, hts, h, hheight, hn⟩
    exact parse_eq_ok_of_derives hts h hheight hn
  · intro source ts e n hts h hdeep
    exact exists_tooDeep_of_derives hts h hdeep

/-- One `not` more makes a filter at the limit too deep. -/
theorem parse_negated_at_limit :
    let e := Expr.negated 255 (.test (.eq "a" (.integer 1)))
    parse e.print = .ok e ∧
      ∃ x, parse e.not.print = .error x ∧ x.fault = .tooDeep maxDepth := by
  intro e
  have hc : e.comparisons = [.eq "a" (.integer 1)] := Expr.comparisons_negated ..
  have hheight : e.height = 256 := (Expr.height_negated ..).trans rfl
  clear_value e
  have hid : ∀ c ∈ e.comparisons, IsIdentifier c.name := by
    intro c h
    rw [hc, List.mem_singleton] at h
    rw [h]
    refine ⟨⟨'a', [], rfl, rfl, ?_⟩, ?_⟩
    · intro d hd
      cases hd
    · intro k
      cases k <;> decide
  have hlist : ∀ c ∈ e.comparisons, ∀ name, c ≠ .within name (.numbers []) := by
    intro c h name hname
    rw [hc, List.mem_singleton, hname] at h
    cases h
  obtain ⟨n, hn, h⟩ := Expr.derives_tokens hlist
  obtain ⟨m, -, h'⟩ := Expr.derives_tokens (e := e.not) hlist
  have hnot : maxDepth < e.not.height := by
    rw [Expr.height, hheight]
    decide
  refine ⟨(parse_eq_ok_iff_derives.1 _ _).2 ⟨e.tokens, n, Expr.reads_print hid hlist, h, ?_, ?_⟩,
    parse_eq_ok_iff_derives.2 _ e.not.tokens e.not m (Expr.reads_print hid hlist) h' (.inl hnot)⟩
  · rw [hheight]
    decide
  · rw [hheight] at hn
    exact Nat.le_of_lt hn

/-! ## Printing and parsing -/

/-- What is parsed can be spelled. -/
theorem wellFormed_of_parse {source : String} {e : Expr} (h : parse source = .ok e) :
    e.WellFormed := by
  obtain ⟨ts, n, ⟨hts, -⟩, hder, hheight, -⟩ := exists_derives_of_parse h
  refine ⟨?_, hder.ne_within_numbers_nil, hheight⟩
  intro c hc
  -- the field's name is one of the tokens, and tokens come from the source
  have hmem := (hder.ident_mem_iff c.name).2 ⟨c, hc, rfl⟩
  rw [← hts] at hmem
  exact isIdentifier_of_scanFrom 0 source.toList hmem

/-- What can be spelled is parsed from its print: the parentheses of the print never nest deeper
than the expression is high. -/
theorem parse_print_of_wellFormed {e : Expr} (h : e.WellFormed) : parse e.print = .ok e := by
  obtain ⟨n, hn, hder⟩ := Expr.derives_tokens h.lists
  exact parse_eq_ok_of_derives (Expr.reads_print h.identifiers h.lists) hder h.height
    (Nat.le_trans (Nat.le_of_lt hn) h.height)

/-- **Printing and parsing are inverses** on the well-formed expressions, and on no others. All
that parsing gives is well-formed, so its print is parsed to it again. -/
theorem parse_print_iff_wellFormed :
    (∀ e : Expr, parse e.print = .ok e ↔ e.WellFormed) ∧
    ∀ source e, parse source = .ok e → e.WellFormed ∧ parse e.print = .ok e := by
  refine ⟨?_, ?_⟩
  · intro e
    exact ⟨wellFormed_of_parse, parse_print_of_wellFormed⟩
  · intro source e h
    have hwf := wellFormed_of_parse h
    exact ⟨hwf, parse_print_of_wellFormed hwf⟩

/-- A source that is not spelled the way it is printed. -/
theorem parse_print_of_unconventional :
    let e : Expr := .and (.test (.eq "a" (.integer 1))) (.test (.within "b" (.texts [])))
    parse "a eq +01 b in[]" = .ok e ∧ e.WellFormed ∧ parse e.print = .ok e := by
  intro e
  -- the source is scanned lexeme by lexeme, white space between them
  have hreads : ∀ position, (scanFrom position "a eq +01 b in[]".toList).Reads
      [.ident "a", .keyword .eq, .number 1, .ident "b", .keyword .within, .mark .openBracket,
        .mark .closeBracket] := by
    refine reads_lexeme rfl rfl ?_
    refine reads_blank rfl ?_
    refine reads_lexeme rfl rfl ?_
    refine reads_blank rfl ?_
    refine reads_lexeme rfl rfl ?_
    refine reads_blank rfl ?_
    refine reads_lexeme rfl rfl ?_
    refine reads_blank rfl ?_
    refine reads_lexeme rfl rfl ?_
    refine reads_lexeme rfl rfl ?_
    refine reads_lexeme rfl rfl ?_
    exact reads_nil
  have h : parse "a eq +01 b in[]" = .ok e :=
    parse_eq_ok_iff.2 ⟨_, hreads 0, ⟨e, 2, rfl⟩, rfl, rfl⟩
  exact ⟨h, parse_print_iff_wellFormed.2 _ _ h⟩

end TraceViews.Filter
