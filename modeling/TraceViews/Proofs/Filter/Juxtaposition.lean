import TraceViews.Filter.Meaning
import TraceViews.Proofs.Filter.Concatenation
import TraceViews.Proofs.Filter.Parse

/-!
# Filters one after the other

Two filters that are written one after the other are one filter, whose disjunctions group to the
left: those of the second are joined to the first one by one. The expression is not the conjunction
of the two, then, but it means the same (`parse_juxtaposed`).
-/

namespace TraceViews.Filter

/-! ## Conjunctions from left to right -/

/-- On every source the whole fails as the left part does, is false if that is, and otherwise has
the result of the right part, be it a truth value or a failure. -/
structure Conjoins (left right whole : Expr) : Prop where
  fails : ∀ fields x, left.evaluate fields = .error x → whole.evaluate fields = .error x
  refutes : ∀ fields, left.evaluate fields = .ok false → whole.evaluate fields = .ok false
  passes : ∀ fields, left.evaluate fields = .ok true →
    whole.evaluate fields = right.evaluate fields

theorem conjoins_and (left right : Expr) : Conjoins left right (.and left right) where
  fails := by
    intro fields x h
    rw [Expr.evaluate, h]
  refutes := by
    intro fields h
    rw [Expr.evaluate, h]
  passes := by
    intro fields h
    rw [Expr.evaluate, h]

/-- Conjunction is associative, also where operands fail. -/
theorem Conjoins.and {left right whole : Expr} (h : Conjoins left right whole) (e : Expr) :
    Conjoins left (.and right e) (.and whole e) where
  fails := by
    intro fields x hleft
    rw [Expr.evaluate, h.fails fields x hleft]
  refutes := by
    intro fields hleft
    rw [Expr.evaluate, h.refutes fields hleft]
  passes := by
    intro fields hleft
    rw [Expr.evaluate, h.passes fields hleft, Expr.evaluate]

/-! ## Tokens -/

/-- The tokens of two filters are a filter, which nests no deeper than they do. -/
theorem Derives.exists_juxtaposed {ts us : List TokenKind} {e f : Expr} {n m : Nat}
    (h : Derives .filter ts e n) (h' : Derives .filter us f m) :
    ∃ g, Derives .filter (ts ++ us) g (max n m) ∧ Conjoins e f g ∧
      g.height ≤ e.height + f.height := by
  generalize hp : Phrase.filter = p at h'
  -- the second filter is taken apart from its last disjunction to its first
  induction h' with
  | @whole us f m hf =>
    refine ⟨.and e f, .next h hf, conjoins_and e f, ?_⟩
    have := e.height_pos
    have := f.height_pos
    rw [Expr.height]
    omega
  | @next us vs f f' m k hf hf' ih =>
    obtain ⟨g, hg, hconj, hheight⟩ := ih hp
    refine ⟨.and g f', ?_, hconj.and f', ?_⟩
    · rw [← List.append_assoc, ← Nat.max_assoc]
      exact .next hg hf'
    · rw [Expr.height, Expr.height]
      omega
  | _ => cases hp

/-! ## Sources -/

/-- The texts of two filters with a space between them have the tokens of both. -/
theorem reads_juxtaposed {s₁ s₂ : String} {ts us : List TokenKind}
    (h₁ : (scan s₁.toList).Reads ts) (h₂ : (scan s₂.toList).Reads us) :
    (scan (s₁ ++ " " ++ s₂).toList).Reads (ts ++ us) := by
  have hblank : (scan (' ' :: s₂.toList)).Reads us := reads_blank rfl h₂.move 0
  have hparted : Parted s₁.toList (' ' :: s₂.toList) := .of_cons rfl
  have htext : (s₁ ++ " " ++ s₂).toList = s₁.toList ++ ' ' :: s₂.toList := by
    rw [String.toList_append, String.toList_append, List.append_assoc]
    rfl
  rw [htext]
  exact h₁.append hblank hparted

/-- **Filters one after the other are conjoined.** If two sources can be parsed, so can the text of
both with a space between them, unless the expression is too high for it, and it is the conjunction
of the two from left to right. Still it may be another expression than theirs joined by an `and`. -/
theorem parse_juxtaposed :
    (∀ s₁ s₂ e₁ e₂, parse s₁ = .ok e₁ → parse s₂ = .ok e₂ →
      (maxDepth < e₁.height + e₂.height ∧
        ∃ x, parse (s₁ ++ " " ++ s₂) = .error x ∧ x.fault = .tooDeep maxDepth) ∨
      ∃ e, parse (s₁ ++ " " ++ s₂) = .ok e ∧ Conjoins e₁ e₂ e) ∧
    ∃ s₁ s₂ e₁ e₂ e, parse s₁ = .ok e₁ ∧ parse s₂ = .ok e₂ ∧ parse (s₁ ++ " " ++ s₂) = .ok e ∧
      e ≠ .and e₁ e₂ := by
  refine ⟨?_, ?_⟩
  · intro s₁ s₂ e₁ e₂ h₁ h₂
    obtain ⟨ts, n, hts, hder₁, -, hn⟩ := exists_derives_of_parse h₁
    obtain ⟨us, m, hus, hder₂, -, hm⟩ := exists_derives_of_parse h₂
    obtain ⟨e, hder, hconj, hheight⟩ := hder₁.exists_juxtaposed hder₂
    have hreads := reads_juxtaposed hts hus
    rcases Nat.lt_or_ge maxDepth e.height with hdeep | hle
    · exact .inl ⟨Nat.lt_of_lt_of_le hdeep hheight,
        exists_tooDeep_of_derives hreads hder (.inl hdeep)⟩
    · exact .inr ⟨e, parse_eq_ok_of_derives hreads hder hle (Nat.max_le.2 ⟨hn, hm⟩), hconj⟩
  · let test (name : String) (n : Int64) : Expr := .test (.eq name (.integer n))
    exact ⟨"a eq 1", "b eq 2 c eq 3", test "a" 1, .and (test "b" 2) (test "c" 3),
      .and (.and (test "a" 1) (test "b" 2)) (test "c" 3), eq_ok_of_toOption (by decide +kernel),
      eq_ok_of_toOption (by decide +kernel), eq_ok_of_toOption (by decide +kernel), nofun⟩

/-- The `or` of the first filter does not reach into the second, whose last word takes no part of
the first. -/
theorem parse_juxtaposed_disjunctions :
    let s₁ := "a eq 1 or b in [2,+3]"
    let s₂ := "not(c eq \"x\")or a contains \"y\" d eq 4"
    let e₁ : Expr := .or (.test (.eq "a" (.integer 1))) (.test (.within "b" (.numbers [2, 3])))
    let e₂ : Expr := .and (.or (.not (.test (.eq "c" (.text "x")))) (.test (.contains "a" "y")))
      (.test (.eq "d" (.integer 4)))
    parse s₁ = .ok e₁ ∧ parse s₂ = .ok e₂ ∧
      ∃ e, parse (s₁ ++ " " ++ s₂) = .ok e ∧ Conjoins e₁ e₂ e := by
  intro s₁ s₂ e₁ e₂
  have h₁ : parse s₁ = .ok e₁ := eq_ok_of_toOption (by decide +kernel)
  have h₂ : parse s₂ = .ok e₂ := eq_ok_of_toOption (by decide +kernel)
  refine ⟨h₁, h₂, (parse_juxtaposed.1 s₁ s₂ e₁ e₂ h₁ h₂).resolve_left ?_⟩
  rintro ⟨hdeep, -⟩
  exact absurd hdeep (by decide)

end TraceViews.Filter
