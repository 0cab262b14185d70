import TraceViews.Filter.Expr.Reader
import TraceViews.Proofs.Except

/-!
# Joining finished operands

A reader joins a finished operand to what waits for it only when the next token shows how far. Here
the joins are compared with the plain operations on expressions: each of them gives the plain
result, unless that one is too high (`Measured.capped`).
-/

namespace TraceViews.Filter

/-! ## Joins without a limit -/

namespace Expr

/-- An operand under `n` `not`s. -/
def negated : Nat → Expr → Expr
  | 0, e => e
  | n + 1, e => negated n (.not e)

theorem negated_succ (n : Nat) (e : Expr) : negated (n + 1) e = .not (negated n e) := by
  induction n generalizing e with
  | zero => rfl
  | succ n ih => exact ih (.not e)

theorem height_negated (n : Nat) (e : Expr) : (negated n e).height = e.height + n := by
  induction n with
  | zero => rfl
  | succ n ih => rw [negated_succ, height, ih, Nat.add_assoc]

/-- An expression joined to the left operand that waits for it, if there is one. -/
def behind (op : Expr → Expr → Expr) (left : Option Measured) (e : Expr) : Expr :=
  match left with
  | none => e
  | some left => op left.expr e

end Expr

namespace Level

/-- An operand with the `not`s and the left operand of an `and` that wait for it. -/
def conjunction (l : Level) (e : Expr) : Expr :=
  .behind .and l.conjunct (.negated l.negations e)

/-- An operand with all that waits for it inside the level. -/
def disjunction (l : Level) (e : Expr) : Expr := .behind .or l.disjunct (l.conjunction e)

end Level

/-! ## Joins under a limit -/

namespace Measured

theorem eq_of_expr_eq {m m' : Measured} (h : m.expr = m'.expr) : m = m' := by
  obtain ⟨e, n, hn⟩ := m
  obtain ⟨e', n', hn'⟩ := m'
  cases h
  cases hn
  cases hn'
  rfl

/-- An expression, unless its height is above the limit. -/
def capped (limit : Nat) (e : Expr) : Except Fault Measured := bounded limit ⟨e, e.height, rfl⟩

theorem capped_of_le {limit : Nat} {m : Measured} (h : m.height ≤ limit) :
    capped limit m.expr = .ok m := by
  have hm : m.expr.height ≤ limit := by rw [m.height_eq]; exact h
  rw [capped, bounded, if_pos hm]
  exact congrArg _ (eq_of_expr_eq rfl)

theorem capped_of_lt {limit : Nat} {e : Expr} (h : limit < e.height) :
    capped limit e = .error (.tooDeep limit) := by
  rw [capped, bounded, if_neg (by simpa using h)]

/-- An expression is let through as it is, or it is too high. -/
theorem capped_cases (limit : Nat) (e : Expr) :
    (∃ m : Measured, m.expr = e ∧ m.height ≤ limit ∧ capped limit e = .ok m) ∨
      (limit < e.height ∧ capped limit e = .error (.tooDeep limit)) := by
  rcases Nat.lt_or_ge limit e.height with h | h
  · exact .inr ⟨h, capped_of_lt h⟩
  · exact .inl ⟨⟨e, e.height, rfl⟩, rfl, h, capped_of_le (m := ⟨e, e.height, rfl⟩) h⟩

theorem bounded_eq_capped (limit : Nat) (m : Measured) : m.bounded limit = capped limit m.expr :=
  congrArg (bounded limit) (eq_of_expr_eq rfl)

theorem expr_of_capped {limit : Nat} {e : Expr} {m : Measured} (h : capped limit e = .ok m) :
    m.expr = e := by
  rcases capped_cases limit e with ⟨m', he, -, hm'⟩ | ⟨-, hm'⟩
  · rw [hm'] at h
    cases h
    exact he
  · rw [hm'] at h
    cases h

theorem negate_eq_capped (limit : Nat) (m : Measured) :
    m.negate limit = capped limit (.not m.expr) :=
  bounded_eq_capped ..

theorem negateAll_eq_capped {limit : Nat} (n : Nat) {m : Measured} (h : m.height ≤ limit) :
    m.negateAll limit n = capped limit (.negated n m.expr) := by
  induction n generalizing m with
  | zero => rw [negateAll, Expr.negated, capped_of_le h]
  | succ n ih =>
    rw [negateAll, negate_eq_capped, Expr.negated]
    rcases capped_cases limit (.not m.expr) with ⟨m', he, hle, hm'⟩ | ⟨hlt, hm'⟩
    · rw [hm', ← he]
      exact ih hle
    · -- what is too high already stays so under more `not`s
      rw [hm', capped_of_lt (by rw [Expr.height_negated]; omega)]
      rfl

theorem expr_of_negateAll {limit : Nat} (n : Nat) {m m' : Measured}
    (h : m.negateAll limit n = .ok m') : m'.expr = .negated n m.expr := by
  induction n generalizing m with
  | zero =>
    cases h
    rfl
  | succ n ih =>
    rw [negateAll] at h
    cases hneg : m.negate limit with
    | error fault =>
      rw [hneg] at h
      cases h
    | ok m₁ =>
      rw [hneg] at h
      rw [negate_eq_capped] at hneg
      rw [ih h, expr_of_capped hneg]
      rfl

theorem conjoin_some (limit : Nat) (left m : Measured) :
    conjoin limit (some left) m = capped limit (.and left.expr m.expr) :=
  bounded_eq_capped ..

theorem disjoin_some (limit : Nat) (left m : Measured) :
    disjoin limit (some left) m = capped limit (.or left.expr m.expr) :=
  bounded_eq_capped ..

section Join

variable {limit : Nat} {op : Expr → Expr → Expr}
  {join : Option Measured → Measured → Except Fault Measured}
  (hnone : ∀ m, join none m = .ok m)
  (hsome : ∀ left m, join (some left) m = capped limit (op left.expr m.expr))

include hnone hsome

theorem capped_bind_join (hop : ∀ a b, b.height ≤ (op a b).height) (left : Option Measured)
    (e : Expr) : (capped limit e >>= join left) = capped limit (.behind op left e) := by
  rcases capped_cases limit e with ⟨m, rfl, hle, hm⟩ | ⟨hlt, hm⟩
  · rw [hm]
    cases left with
    | none => exact (hnone m).trans hm.symm
    | some left => exact hsome left m
  · -- an operand that is too high makes the whole too high
    have hhigh : limit < (Expr.behind op left e).height := by
      cases left with
      | none => exact hlt
      | some left => exact Nat.lt_of_lt_of_le hlt (hop left.expr e)
    rw [hm, capped_of_lt hhigh]
    rfl

theorem expr_of_join {left : Option Measured} {m m' : Measured} (h : join left m = .ok m') :
    m'.expr = .behind op left m.expr := by
  cases left with
  | none =>
    rw [hnone] at h
    cases h
    rfl
  | some left =>
    rw [hsome] at h
    exact expr_of_capped h

end Join

theorem capped_bind_conjoin (limit : Nat) (left : Option Measured) (e : Expr) :
    (capped limit e >>= conjoin limit left) = capped limit (.behind .and left e) :=
  capped_bind_join (fun _ => rfl) (conjoin_some limit)
    (fun a b => by simp only [Expr.height]; omega) left e

theorem capped_bind_disjoin (limit : Nat) (left : Option Measured) (e : Expr) :
    (capped limit e >>= disjoin limit left) = capped limit (.behind .or left e) :=
  capped_bind_join (fun _ => rfl) (disjoin_some limit)
    (fun a b => by simp only [Expr.height]; omega) left e

theorem expr_of_conjoin {limit : Nat} {left : Option Measured} {m m' : Measured}
    (h : conjoin limit left m = .ok m') : m'.expr = .behind .and left m.expr :=
  expr_of_join (fun _ => rfl) (conjoin_some limit) h

theorem expr_of_disjoin {limit : Nat} {left : Option Measured} {m m' : Measured}
    (h : disjoin limit left m = .ok m') : m'.expr = .behind .or left m.expr :=
  expr_of_join (fun _ => rfl) (disjoin_some limit) h

end Measured

/-! ## Joins of a reader -/

namespace Reader

/-- The operand with all that waits for it inside the innermost level. -/
def disjunction (limit : Nat) (r : Reader) (m : Measured) : Except Fault Measured :=
  r.conjunction limit m >>= Measured.disjoin limit r.level.disjunct

/-- The operand with all that waits for it outside of parentheses. -/
def whole (limit : Nat) (r : Reader) (m : Measured) : Except Fault Measured :=
  r.disjunction limit m >>= Measured.conjoin limit r.finished

variable {limit : Nat} {r : Reader} {m : Measured}

theorem conjunction_eq_capped (h : m.height ≤ limit) :
    r.conjunction limit m = Measured.capped limit (r.level.conjunction m.expr) := by
  rw [conjunction, Measured.negateAll_eq_capped _ h, Measured.capped_bind_conjoin]
  rfl

theorem disjunction_eq_capped (h : m.height ≤ limit) :
    r.disjunction limit m = Measured.capped limit (r.level.disjunction m.expr) := by
  rw [disjunction, conjunction_eq_capped h, Measured.capped_bind_disjoin]
  rfl

theorem whole_eq_capped (h : m.height ≤ limit) :
    r.whole limit m
      = Measured.capped limit (.behind .and r.finished (r.level.disjunction m.expr)) := by
  rw [whole, disjunction_eq_capped h, Measured.capped_bind_conjoin]

theorem expr_of_conjunction {c : Measured} (h : r.conjunction limit m = .ok c) :
    c.expr = r.level.conjunction m.expr := by
  obtain ⟨m', hm', h⟩ := exists_of_bind_eq_ok h
  rw [Measured.expr_of_conjoin h, Measured.expr_of_negateAll _ hm']
  rfl

theorem expr_of_disjunction {d : Measured} (h : r.disjunction limit m = .ok d) :
    d.expr = r.level.disjunction m.expr := by
  obtain ⟨c, hc, h⟩ := exists_of_bind_eq_ok h
  rw [Measured.expr_of_disjoin h, expr_of_conjunction hc]
  rfl

theorem expr_of_whole {w : Measured} (h : r.whole limit m = .ok w) :
    w.expr = .behind .and r.finished (r.level.disjunction m.expr) := by
  obtain ⟨d, hd, h⟩ := exists_of_bind_eq_ok h
  rw [Measured.expr_of_conjoin h, expr_of_disjunction hd]

end Reader

end TraceViews.Filter
