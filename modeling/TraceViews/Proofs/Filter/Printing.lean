import TraceViews.Filter.Expr.Printer
import TraceViews.Proofs.Filter.Grammar

/-!
# Printed tokens and the grammar

The tokens that an expression is printed with are a filter that stands for it (`derives_tokens`),
unless one of its lists is an empty list of numbers, which nothing spells. Each parenthesis of the
printer stands around an operator that adds to the height, so fewer `not`s and parentheses are open
at a time than the expression is high.
-/

namespace TraceViews.Filter

/-! ## Comparisons -/

theorem Items.separated_cons (t : TokenKind) (ts : List TokenKind) :
    separated (t :: ts) = t :: ts.flatMap fun u => [.mark .comma, u] := by
  induction ts generalizing t with
  | nil => rfl
  | cons u ts ih =>
    rw [separated, ih, List.flatMap_cons]
    rfl

theorem derivesItems_tokens {items : Items} (h : items ≠ .numbers []) :
    DerivesItems items.tokens items := by
  cases items with
  | texts items =>
    cases items with
    | nil => exact .none
    | cons s more =>
      rw [Items.tokens, List.map_cons, Items.separated_cons, List.flatMap_map]
      exact .texts s more
  | numbers items =>
    cases items with
    | nil => exact absurd rfl h
    | cons n more =>
      rw [Items.tokens, List.map_cons, Items.separated_cons, List.flatMap_map]
      exact .numbers n more

theorem derivesComparison_tokens {c : Comparison} (h : ∀ name, c ≠ .within name (.numbers [])) :
    DerivesComparison c.tokens c := by
  cases c with
  | eq name value =>
    cases value with
    | text s => exact .eqText name s
    | integer n => exact .eqNumber name n
  | contains name needle => exact .contains name needle
  | within name items =>
    refine .within name (derivesItems_tokens ?_)
    rintro rfl
    exact h name rfl

/-! ## Expressions -/

namespace Expr

/-- The tokens are a phrase for the expression that nests less deep than the expression is high. -/
def Shallow (p : Phrase) (ts : List TokenKind) (e : Expr) : Prop :=
  ∃ n < e.height, Derives p ts e n

theorem Shallow.conjunct {ts : List TokenKind} {e : Expr} (h : Shallow .operand ts e) :
    Shallow .conjunction ts e := by
  obtain ⟨n, hn, h⟩ := h
  exact ⟨n, hn, .conjunct h⟩

theorem Shallow.disjunct {ts : List TokenKind} {e : Expr} (h : Shallow .conjunction ts e) :
    Shallow .disjunction ts e := by
  obtain ⟨n, hn, h⟩ := h
  exact ⟨n, hn, .disjunct h⟩

/-- The tokens of an expression fit the places that demand an operand, the operand of an `and`,
and the operand of an `or`. -/
theorem shallow_tokensAt {e : Expr}
    (h : ∀ c ∈ e.comparisons, ∀ name, c ≠ .within name (.numbers [])) :
    Shallow .operand (e.tokensAt 3) e ∧ Shallow .conjunction (e.tokensAt 2) e ∧
      Shallow .disjunction (e.tokensAt 1) e := by
  -- all three places at once: an operator asks more of its operands than of itself
  induction e with
  | test c =>
    have hop : Shallow .operand c.tokens (.test c) :=
      ⟨0, Nat.zero_lt_one, .test (derivesComparison_tokens (h c (.head _)))⟩
    exact ⟨hop, hop.conjunct, hop.conjunct.disjunct⟩
  | not operand ih =>
    obtain ⟨⟨n, hn, hoperand⟩, -, -⟩ := ih h
    have hop : Shallow .operand (.keyword .not :: operand.tokensAt 3) (.not operand) :=
      ⟨n + 1, Nat.succ_lt_succ hn, .not hoperand⟩
    exact ⟨hop, hop.conjunct, hop.conjunct.disjunct⟩
  | and left right ihl ihr =>
    obtain ⟨hl, hr⟩ := List.forall_mem_append.1 h
    obtain ⟨-, ⟨n, hn, hleft⟩, -⟩ := ihl hl
    obtain ⟨⟨m, hm, hright⟩, -, -⟩ := ihr hr
    have hand := Derives.and hleft hright
    have hheight : max n m + 1 < (Expr.and left right).height := by
      rw [height]
      omega
    -- parentheses are needed only where an operand is demanded
    refine ⟨⟨max n m + 1, hheight, .group (.disjunct hand)⟩, ⟨max n m, ?_, hand⟩,
      ⟨max n m, ?_, .disjunct hand⟩⟩
    · omega
    · omega
  | or left right ihl ihr =>
    obtain ⟨hl, hr⟩ := List.forall_mem_append.1 h
    obtain ⟨-, -, ⟨n, hn, hleft⟩⟩ := ihl hl
    obtain ⟨-, ⟨m, hm, hright⟩, -⟩ := ihr hr
    have hor := Derives.or hleft hright
    have hheight : max n m + 1 < (Expr.or left right).height := by
      rw [height]
      omega
    -- an operand of `and` and an operand of `not` need them alike
    have hgroup : Shallow .operand (parenthesize (left.tokensAt 1 ++ .keyword .or ::
        right.tokensAt 2)) (.or left right) := ⟨max n m + 1, hheight, .group hor⟩
    refine ⟨hgroup, hgroup.conjunct, ⟨max n m, ?_, hor⟩⟩
    omega

/-- Nothing binds less strongly than a place for an operand of `or` demands. -/
theorem tokens_eq_tokensAt_one (e : Expr) : e.tokens = e.tokensAt 1 := by
  cases e <;> rfl

/-- **Printed tokens are a filter** for the printed expression. -/
theorem derives_tokens {e : Expr}
    (h : ∀ c ∈ e.comparisons, ∀ name, c ≠ .within name (.numbers [])) :
    ∃ n < e.height, Derives .filter e.tokens e n := by
  obtain ⟨-, -, ⟨n, hn, hdis⟩⟩ := shallow_tokensAt h
  rw [tokens_eq_tokensAt_one]
  exact ⟨n, hn, .whole hdis⟩

end Expr

end TraceViews.Filter
