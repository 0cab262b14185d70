import TraceViews.Proofs.Filter.Reader.Steps

/-!
# Readers under a greater limit

A limit makes a reader give up, and does nothing else. Under a greater limit it takes the same steps
and finds the same faults, except where it gave up (`Relaxes`).
-/

namespace TraceViews.Filter

variable {limit limit' : Nat}

/-- A result under a limit, and the one under a greater limit: they are the same, unless the limit
was to blame. -/
def Relaxes {α : Type} (limit : Nat) (x y : Except Fault α) : Prop :=
  x = .error (.tooDeep limit) ∨ y = x

namespace Relaxes

variable {α β : Type} {x y : Except Fault α} {f g : α → Except Fault β}

theorem refl (x : Except Fault α) : Relaxes limit x x := .inr rfl

theorem bind (h : Relaxes limit x y) (hf : ∀ a, Relaxes limit (f a) (g a)) :
    Relaxes limit (x >>= f) (y >>= g) := by
  rcases h with rfl | rfl
  · exact .inl rfl
  · cases y with
    | error fault => exact .refl _
    | ok a => exact hf a

theorem eq_ok {a : α} (h : Relaxes limit x y) (hx : x = .ok a) : y = .ok a := by
  subst hx
  exact h.resolve_left nofun

theorem eq_error {fault : Fault} (h : Relaxes limit x y) (hx : x = .error fault)
    (hfault : fault ≠ .tooDeep limit) : y = .error fault := by
  subst hx
  refine h.resolve_left ?_
  intro heq
  cases heq
  exact hfault rfl

end Relaxes

/-! ## Joins -/

namespace Measured

theorem relaxes_bounded (hle : limit ≤ limit') (m : Measured) :
    Relaxes limit (m.bounded limit) (m.bounded limit') := by
  rw [bounded, bounded]
  by_cases h : m.height ≤ limit
  · rw [if_pos h, if_pos (Nat.le_trans h hle)]
    exact .refl _
  · rw [if_neg h]
    exact .inl rfl

theorem relaxes_negateAll (hle : limit ≤ limit') (n : Nat) (m : Measured) :
    Relaxes limit (m.negateAll limit n) (m.negateAll limit' n) := by
  induction n generalizing m with
  | zero => exact .refl _
  | succ n ih => exact .bind (relaxes_bounded hle _) ih

theorem relaxes_conjoin (hle : limit ≤ limit') (left : Option Measured) (m : Measured) :
    Relaxes limit (conjoin limit left m) (conjoin limit' left m) := by
  cases left with
  | none => exact .refl _
  | some left => exact relaxes_bounded hle _

theorem relaxes_disjoin (hle : limit ≤ limit') (left : Option Measured) (m : Measured) :
    Relaxes limit (disjoin limit left m) (disjoin limit' left m) := by
  cases left with
  | none => exact .refl _
  | some left => exact relaxes_bounded hle _

end Measured

/-! ## Steps -/

namespace Reader

theorem relaxes_enter (hle : limit ≤ limit') (r opened : Reader) :
    Relaxes limit (r.enter limit opened) (r.enter limit' opened) := by
  rw [enter, enter]
  by_cases h : r.nesting < limit
  · rw [if_pos h, if_pos (Nat.lt_of_lt_of_le h hle)]
    exact .refl _
  · rw [if_neg h]
    exact .inl rfl

theorem relaxes_stepOperand (hle : limit ≤ limit') (r : Reader) (t : TokenKind) :
    Relaxes limit (r.stepOperand limit t) (r.stepOperand limit' t) := by
  rw [stepOperand.eq_def, stepOperand.eq_def]
  split
  · exact .refl _
  · exact relaxes_enter hle r _
  · exact relaxes_enter hle r _
  · exact .refl _

theorem relaxes_conjunction (hle : limit ≤ limit') (r : Reader) (m : Measured) :
    Relaxes limit (r.conjunction limit m) (r.conjunction limit' m) :=
  .bind (Measured.relaxes_negateAll hle _ m) (Measured.relaxes_conjoin hle _)

theorem relaxes_stepJunction (hle : limit ≤ limit') (r : Reader) (m : Measured) (t : TokenKind) :
    Relaxes limit (r.stepJunction limit m t) (r.stepJunction limit' m t) := by
  rw [stepJunction, stepJunction]
  refine .bind (relaxes_conjunction hle r m) ?_
  intro c
  by_cases hand : t = .keyword .and
  · rw [if_pos hand, if_pos hand]
    exact .refl _
  rw [if_neg hand, if_neg hand]
  refine .bind (Measured.relaxes_disjoin hle _ c) ?_
  intro d
  by_cases hor : t = .keyword .or
  · rw [if_pos hor, if_pos hor]
    exact .refl _
  rw [if_neg hor, if_neg hor]
  cases r.outer with
  | cons l ls => exact .refl _
  | nil =>
    refine .bind (Measured.relaxes_conjoin hle _ d) ?_
    intro w
    split
    · exact relaxes_stepOperand hle _ _
    · exact relaxes_stepOperand hle _ _
    · exact relaxes_stepOperand hle _ _
    · exact .refl _

/-- **A step under a greater limit.** -/
theorem relaxes_step (hle : limit ≤ limit') (r : Reader) (t : TokenKind) :
    Relaxes limit (r.step limit t) (r.step limit' t) := by
  rw [step.eq_def, step.eq_def]
  split
  case h_1 => exact relaxes_stepOperand hle r _
  case h_20 => exact relaxes_stepJunction hle r _ _
  all_goals exact .refl _

/-- **A run under a greater limit.** -/
theorem relaxes_feed (hle : limit ≤ limit') (r : Reader) (ts : List TokenKind) :
    Relaxes limit (r.feed limit ts) (r.feed limit' ts) := by
  induction ts generalizing r with
  | nil => exact .refl _
  | cons t ts ih =>
    rw [feed_cons, feed_cons]
    exact .bind (relaxes_step hle r t) ih

theorem relaxes_finish (hle : limit ≤ limit') (r : Reader) :
    Relaxes limit (r.finish limit) (r.finish limit') := by
  rw [finish.eq_def, finish.eq_def]
  split
  · refine .bind (relaxes_conjunction hle r _) ?_
    intro c
    refine .bind (Measured.relaxes_disjoin hle _ c) ?_
    intro d
    split
    · exact Measured.relaxes_conjoin hle _ d
    · exact .refl _
  · exact .refl _

end Reader

end TraceViews.Filter
