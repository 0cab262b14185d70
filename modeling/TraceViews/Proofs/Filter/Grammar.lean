import TraceViews.Filter.Expr
import TraceViews.Filter.Token

/-!
# The grammar of filters

The language of filters, as a relation between token sequences and expressions:

    filter      := disjunction disjunction*
    disjunction := conjunction ( "or" conjunction )*
    conjunction := operand ( "and" operand )*
    operand     := "not" operand | comparison | "(" disjunction ")"
    comparison  := IDENT "eq" STRING | IDENT "eq" NUMBER | IDENT "contains" STRING
                 | IDENT "in" "[" items "]"
    items       := empty | STRING ( "," STRING )* | NUMBER ( "," NUMBER )*

A repetition groups to the left, so it stands here as a rule whose left part is the phrase itself;
the outermost one is a conjunction. Next to the expression, a derivation counts how many `not`s and
parentheses are open at a time. The grammar knows nothing of limits and of the way tokens are read.
-/

namespace TraceViews.Filter

/-- The items of a list: literals of one kind with commas between them. The empty list is one of
strings. -/
inductive DerivesItems : List TokenKind → Items → Prop where
  | none : DerivesItems [] (.texts [])
  | texts (s : String) (more : List String) :
    DerivesItems (.text s :: more.flatMap fun s => [.mark .comma, .text s]) (.texts (s :: more))
  | numbers (n : Int64) (more : List Int64) :
    DerivesItems (.number n :: more.flatMap fun n => [.mark .comma, .number n])
      (.numbers (n :: more))

/-- The comparisons. -/
inductive DerivesComparison : List TokenKind → Comparison → Prop where
  | eqText (name s : String) :
    DerivesComparison [.ident name, .keyword .eq, .text s] (.eq name (.text s))
  | eqNumber (name : String) (n : Int64) :
    DerivesComparison [.ident name, .keyword .eq, .number n] (.eq name (.integer n))
  | contains (name needle : String) :
    DerivesComparison [.ident name, .keyword .contains, .text needle] (.contains name needle)
  | within (name : String) {ts : List TokenKind} {items : Items} (h : DerivesItems ts items) :
    DerivesComparison
      (.ident name :: .keyword .within :: .mark .openBracket :: ts ++ [.mark .closeBracket])
      (.within name items)

/-- The phrases that expressions are built from. -/
inductive Phrase where
  | operand
  | conjunction
  | disjunction
  | filter
  deriving DecidableEq, Repr

/-- `Derives p ts e n`: the tokens `ts` are a phrase `p` that stands for `e`, and `n` is the
greatest number of `not`s and parentheses that are open at one of them. A parenthesis is open up to
its partner, a `not` up to the end of its operand. -/
inductive Derives : Phrase → List TokenKind → Expr → Nat → Prop where
  | test {ts : List TokenKind} {c : Comparison} (h : DerivesComparison ts c) :
    Derives .operand ts (.test c) 0
  | not {ts : List TokenKind} {e : Expr} {n : Nat} (h : Derives .operand ts e n) :
    Derives .operand (.keyword .not :: ts) (.not e) (n + 1)
  | group {ts : List TokenKind} {e : Expr} {n : Nat} (h : Derives .disjunction ts e n) :
    Derives .operand (.mark .openParen :: ts ++ [.mark .closeParen]) e (n + 1)
  | conjunct {ts : List TokenKind} {e : Expr} {n : Nat} (h : Derives .operand ts e n) :
    Derives .conjunction ts e n
  | and {ts us : List TokenKind} {e f : Expr} {n m : Nat} (hl : Derives .conjunction ts e n)
    (hr : Derives .operand us f m) :
    Derives .conjunction (ts ++ .keyword .and :: us) (.and e f) (max n m)
  | disjunct {ts : List TokenKind} {e : Expr} {n : Nat} (h : Derives .conjunction ts e n) :
    Derives .disjunction ts e n
  | or {ts us : List TokenKind} {e f : Expr} {n m : Nat} (hl : Derives .disjunction ts e n)
    (hr : Derives .conjunction us f m) :
    Derives .disjunction (ts ++ .keyword .or :: us) (.or e f) (max n m)
  | whole {ts : List TokenKind} {e : Expr} {n : Nat} (h : Derives .disjunction ts e n) :
    Derives .filter ts e n
  | next {ts us : List TokenKind} {e f : Expr} {n m : Nat} (hl : Derives .filter ts e n)
    (hr : Derives .disjunction us f m) :
    Derives .filter (ts ++ us) (.and e f) (max n m)

/-- The tokens are a phrase that stands for the expression, however deep it nests. -/
def Stands (p : Phrase) (ts : List TokenKind) (e : Expr) : Prop := ∃ n, Derives p ts e n

/-! ## The comparisons of a phrase -/

/-- A list between brackets has literals and commas. -/
theorem DerivesItems.ident_not_mem {ts : List TokenKind} {items : Items} (h : DerivesItems ts items)
    (name : String) : .ident name ∉ ts := by
  cases h with
  | none => exact List.not_mem_nil
  | texts s more => simp
  | numbers n more => simp

/-- The only identifier of a comparison is the name of its field. -/
theorem DerivesComparison.ident_mem_iff {ts : List TokenKind} {c : Comparison}
    (h : DerivesComparison ts c) (name : String) : .ident name ∈ ts ↔ c.name = name := by
  cases h with
  | within field h =>
    have := h.ident_not_mem name
    simp [Comparison.name, this, eq_comm]
  | _ => simp [Comparison.name, eq_comm]

theorem DerivesComparison.ne_within_numbers_nil {ts : List TokenKind} {c : Comparison}
    (h : DerivesComparison ts c) (name : String) : c ≠ .within name (.numbers []) := by
  rintro rfl
  cases h with
  | within _ h => cases h

variable {p : Phrase} {ts : List TokenKind} {e : Expr} {n : Nat}

/-- **The identifiers of a phrase** are the names of the fields that its comparisons test. -/
theorem Derives.ident_mem_iff (h : Derives p ts e n) (name : String) :
    .ident name ∈ ts ↔ ∃ c ∈ e.comparisons, c.name = name := by
  induction h with
  | test h => simp [Expr.comparisons, h.ident_mem_iff]
  | not h ih => simp [Expr.comparisons, ih]
  | group h ih => simp [ih]
  | conjunct h ih => exact ih
  | disjunct h ih => exact ih
  | whole h ih => exact ih
  | and hl hr ihl ihr => simp [Expr.comparisons, ihl, ihr, or_and_right, exists_or]
  | or hl hr ihl ihr => simp [Expr.comparisons, ihl, ihr, or_and_right, exists_or]
  | next hl hr ihl ihr => simp [Expr.comparisons, ihl, ihr, or_and_right, exists_or]

/-- The empty list of a phrase is one of strings. -/
theorem Derives.ne_within_numbers_nil (h : Derives p ts e n) :
    ∀ c ∈ e.comparisons, ∀ name, c ≠ .within name (.numbers []) := by
  induction h with
  | test h =>
    intro c hc
    rw [List.mem_singleton.1 hc]
    exact h.ne_within_numbers_nil
  | not h ih => exact ih
  | group h ih => exact ih
  | conjunct h ih => exact ih
  | disjunct h ih => exact ih
  | whole h ih => exact ih
  | and hl hr ihl ihr => exact List.forall_mem_append.2 ⟨ihl, ihr⟩
  | or hl hr ihl ihr => exact List.forall_mem_append.2 ⟨ihl, ihr⟩
  | next hl hr ihl ihr => exact List.forall_mem_append.2 ⟨ihl, ihr⟩

end TraceViews.Filter
