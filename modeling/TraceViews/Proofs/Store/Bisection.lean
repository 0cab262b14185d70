import TraceViews.Store.Nearest

/-!
# Where a bisection ends

A bisection looks at few elements, and only at those can it know how they lie. Where it ends, the
element in front is at or before the target and the one there is after it (`IsBoundary`), in
whatever order the elements are. In the order of time a boundary parts all of them, so the nearest
element is found (`exists_nearestIndex_of_inOrder`).
-/

namespace TraceViews

variable {n : Nat} {time : Fin n → Timestamp} {target : Timestamp}

/-! ## Boundaries -/

/-- The element in front of the position is at or before the target, if there is one, and the
element there is after it, if there is one. -/
structure IsBoundary (time : Fin n → Timestamp) (target : Timestamp) (position : Nat) : Prop where
  before : ∀ i : Fin n, i.val + 1 = position → time i ≤ target
  after : ∀ i : Fin n, i.val = position → target < time i

/-- **A bisection ends at a boundary**, if it begins between an element at or before the target and
one after it. -/
theorem isBoundary_firstAfter {left right : Nat} (h : right ≤ n) (hle : left ≤ right)
    (hbefore : ∀ i : Fin n, i.val + 1 = left → time i ≤ target)
    (hafter : ∀ i : Fin n, i.val = right → target < time i) :
    IsBoundary time target (firstAfter time target left right h) := by
  fun_induction firstAfter time target left right h with
  | case1 left right h hlt middle hmiddle ih =>
    -- the middle one is now the element in front
    refine ih (by omega) ?_ hafter
    intro i hi
    have hsame : i = ⟨middle, by omega⟩ := Fin.ext (Nat.succ_inj.1 hi)
    rw [hsame]
    exact hmiddle
  | case2 left right h hlt middle hmiddle ih =>
    refine ih (by omega) hbefore ?_
    intro i hi
    have hsame : i = ⟨middle, by omega⟩ := Fin.ext hi
    rw [hsame]
    exact Int64.not_le.1 hmiddle
  | case3 left right h hge =>
    have hsame : left = right := Nat.le_antisymm hle (Nat.not_lt.1 hge)
    exact ⟨hbefore, hsame ▸ hafter⟩

/-- A bisection of a whole sequence begins outside of it on either side. -/
theorem isBoundary_firstAfter_all (time : Fin n → Timestamp) (target : Timestamp) :
    IsBoundary time target (firstAfter time target 0 n (Nat.le_refl n)) := by
  refine isBoundary_firstAfter _ (Nat.zero_le n) nofun ?_
  intro i hi
  exact absurd hi (Nat.ne_of_lt i.isLt)

/-! ## Sequences in the order of time -/

/-- No element is before one in front of it. -/
def InOrder (time : Fin n → Timestamp) : Prop := ∀ i j, i ≤ j → time i ≤ time j

/-- In the order of time a boundary parts the elements at or before the target from the others. -/
theorem IsBoundary.le_iff_lt {position : Nat} (h : IsBoundary time target position)
    (horder : InOrder time) (hle : position ≤ n) (i : Fin n) :
    time i ≤ target ↔ i.val < position := by
  constructor
  · intro hi
    rw [← Nat.not_le]
    intro hge
    have hlt : position < n := Nat.lt_of_le_of_lt hge i.isLt
    have hafter : target < time i :=
      Int64.lt_of_lt_of_le (h.after ⟨position, hlt⟩ rfl) (horder ⟨position, hlt⟩ i hge)
    exact Int64.not_le.2 hafter hi
  · intro hi
    obtain ⟨front, rfl⟩ := Nat.exists_eq_succ_of_ne_zero (Nat.ne_zero_of_lt hi)
    have hle : i ≤ ⟨front, hle⟩ := Nat.le_of_lt_succ hi
    exact Int64.le_trans (horder i _ hle) (h.before ⟨front, _⟩ rfl)

/-- The position of the last element at or before the target, and the first position if there is
none. -/
structure IsNearest (time : Fin n → Timestamp) (target : Timestamp) (index : Nat) : Prop where
  inside : index < n
  last : ∀ i : Fin n, time i ≤ target → time ⟨index, inside⟩ ≤ target ∧ i.val ≤ index
  first : (∀ i : Fin n, target < time i) → index = 0

/-- The nearest element is the one in front of the boundary, or the first one. -/
theorem IsBoundary.isNearest {position : Nat} (h : IsBoundary time target position)
    (horder : InOrder time) (hle : position ≤ n) (hn : 0 < n) :
    IsNearest time target (position - 1) := by
  have hparts := h.le_iff_lt horder hle
  refine ⟨by omega, ?_, ?_⟩
  · intro i hi
    have hlt := (hparts i).1 hi
    have hfront : position - 1 < position := by omega
    exact ⟨(hparts _).2 hfront, by omega⟩
  · intro hnone
    -- the element in front of the boundary would be at or before the target
    refine Nat.eq_zero_of_not_pos ?_
    intro hpos
    have hlt : position - 1 < position := by omega
    exact Int64.not_le.2 (hnone ⟨position - 1, _⟩) ((hparts ⟨position - 1, by omega⟩).2 hlt)

/-! ## Answers -/

/-- Only where there is no element there is no nearest one. -/
theorem nearestIndex_eq_error_iff {e : StoreError} :
    nearestIndex time target = .error e ↔ e = .empty ∧ n = 0 := by
  rw [nearestIndex]
  by_cases hn : n = 0
  · rw [if_pos hn]
    simp [hn, eq_comm]
  · rw [if_neg hn]
    simp [hn]

/-- **In the order of time the nearest element is found.** -/
theorem exists_nearestIndex_of_inOrder (target : Timestamp) (horder : InOrder time) (hn : 0 < n) :
    ∃ index, nearestIndex time target = .ok index ∧ IsNearest time target index := by
  have hle := firstAfter_le time target 0 n (Nat.le_refl n) (Nat.zero_le n)
  refine ⟨_, ?_, (isBoundary_firstAfter_all time target).isNearest horder hle hn⟩
  rw [nearestIndex, if_neg (Nat.ne_of_gt hn)]

end TraceViews
