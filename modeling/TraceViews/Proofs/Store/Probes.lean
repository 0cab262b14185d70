import Mathlib.Data.Nat.Log
import TraceViews.Proofs.Store.Bisection

/-!
# The probes of a bisection

The records of a store come in the order of time only if their senders see to that, so a bisection
meets sequences in any order. Its course is told here for a sequence that may have no element at a
position (`Bisects`): no course goes on behind a probe that hits nothing. Main statement: whatever
the order, a bisection of a sequence that is not empty ends after few probes, all of them inside, at
an element at or before the target with one after it behind, or at the first element; and a later
target never leads further to the front (`crossing_in_any_order`).
-/

namespace TraceViews

variable {n : Nat} {time : Fin n → Timestamp} {target target' : Timestamp}
  {left right position : Nat} {probes : List Nat}

/-! ## The course of a bisection -/

/-- The element of a sequence at a position, if the position is inside. -/
def elementAt (time : Fin n → Timestamp) (index : Nat) : Option Timestamp :=
  if h : index < n then some (time ⟨index, h⟩) else none

theorem elementAt_of_lt (time : Fin n → Timestamp) {index : Nat} (h : index < n) :
    elementAt time index = some (time ⟨index, h⟩) :=
  dif_pos h

theorem lt_of_elementAt_eq_some {index : Nat} {t : Timestamp}
    (h : elementAt time index = some t) : index < n := by
  rw [elementAt] at h
  split at h
  · assumption
  · cases h

/-- The course of a bisection between two bounds: the positions that it probes, one after the
other, and the position that it ends at. -/
inductive Bisects (element? : Nat → Option Timestamp) (target : Timestamp) :
    Nat → Nat → List Nat → Nat → Prop where
  | stop {left right : Nat} (hge : right ≤ left) : Bisects element? target left right [] left
  | up {left right position : Nat} {probes : List Nat} {t : Timestamp} (hlt : left < right)
    (hprobe : element? (left + (right - left) / 2) = some t) (ht : t ≤ target)
    (h : Bisects element? target (left + (right - left) / 2 + 1) right probes position) :
    Bisects element? target left right ((left + (right - left) / 2) :: probes) position
  | down {left right position : Nat} {probes : List Nat} {t : Timestamp} (hlt : left < right)
    (hprobe : element? (left + (right - left) / 2) = some t) (ht : target < t)
    (h : Bisects element? target left (left + (right - left) / 2) probes position) :
    Bisects element? target left right ((left + (right - left) / 2) :: probes) position

/-- Every probe hits an element. -/
theorem Bisects.exists_of_mem {element? : Nat → Option Timestamp}
    (h : Bisects element? target left right probes position) :
    ∀ probe ∈ probes, ∃ t, element? probe = some t := by
  induction h with
  | stop hge => nofun
  | up hlt hprobe ht h ih => exact List.forall_mem_cons.2 ⟨⟨_, hprobe⟩, ih⟩
  | down hlt hprobe ht h ih => exact List.forall_mem_cons.2 ⟨⟨_, hprobe⟩, ih⟩

/-- Half of a range takes one probe less. -/
theorem clog_half_add_one {width : Nat} (h : 0 < width) :
    Nat.clog 2 (width / 2 + 1) + 1 = Nat.clog 2 (width + 1) := by
  have hhalf : (width + 1 + 2 - 1) / 2 = width / 2 + 1 := by omega
  rw [Nat.clog_of_one_lt Nat.one_lt_two (Nat.succ_lt_succ h), hhalf]

/-- A probe leaves at most half of the range, so there are few of them. -/
theorem Bisects.length_le {element? : Nat → Option Timestamp}
    (h : Bisects element? target left right probes position) :
    probes.length ≤ Nat.clog 2 (right - left + 1) := by
  induction h with
  | stop hge => exact Nat.zero_le _
  | @up left right position probes t hlt hprobe ht h ih =>
    rw [List.length_cons, ← clog_half_add_one (Nat.sub_pos_of_lt hlt)]
    exact Nat.succ_le_succ (Nat.le_trans ih (Nat.clog_mono_right 2 (by omega)))
  | @down left right position probes t hlt hprobe ht h ih =>
    rw [List.length_cons, ← clog_half_add_one (Nat.sub_pos_of_lt hlt)]
    exact Nat.succ_le_succ (Nat.le_trans ih (Nat.clog_mono_right 2 (by omega)))

/-- **A bisection has a course**, whatever the order of the elements, and ends where it does. -/
theorem exists_bisects (time : Fin n → Timestamp) (target : Timestamp) (h : right ≤ n) :
    ∃ probes, Bisects (elementAt time) target left right probes
      (firstAfter time target left right h) := by
  fun_induction firstAfter time target left right h with
  | case1 left right h hlt middle hmiddle ih =>
    obtain ⟨probes, hcourse⟩ := ih
    exact ⟨middle :: probes, .up hlt (elementAt_of_lt time (by omega)) hmiddle hcourse⟩
  | case2 left right h hlt middle hmiddle ih =>
    obtain ⟨probes, hcourse⟩ := ih
    have hafter : target < time ⟨middle, by omega⟩ := Int64.not_le.1 hmiddle
    exact ⟨middle :: probes, .down hlt (elementAt_of_lt time (by omega)) hafter hcourse⟩
  | case3 left right h hge => exact ⟨[], .stop (Nat.not_lt.1 hge)⟩

/-! ## Two targets -/

/-- A bisection goes on in the upper half behind an element that is not after the target, -/
theorem firstAfter_up (h : right ≤ n) (hlt : left < right)
    (hmiddle : left + (right - left) / 2 < n)
    (ht : time ⟨left + (right - left) / 2, hmiddle⟩ ≤ target) :
    firstAfter time target left right h
      = firstAfter time target (left + (right - left) / 2 + 1) right h := by
  rw [firstAfter.eq_def, dif_pos hlt]
  exact if_pos ht

/-- and in the lower half in front of one that is. -/
theorem firstAfter_down (h : right ≤ n) (hlt : left < right)
    (hmiddle : left + (right - left) / 2 < n)
    (ht : target < time ⟨left + (right - left) / 2, hmiddle⟩) :
    firstAfter time target left right h
      = firstAfter time target left (left + (right - left) / 2) (Nat.le_of_lt hmiddle) := by
  rw [firstAfter.eq_def, dif_pos hlt]
  exact if_neg (Int64.not_le.2 ht)

theorem le_firstAfter (time : Fin n → Timestamp) (target : Timestamp) (h : right ≤ n) :
    left ≤ firstAfter time target left right h := by
  fun_induction firstAfter time target left right h with
  | case1 left right h hlt middle hmiddle ih => exact Nat.le_trans (by omega) ih
  | case2 left right h hlt middle hmiddle ih => exact ih
  | case3 left right h hge => exact Nat.le_refl _

/-- **A later target leads further to the back**: up to the probe that parts them the two courses
are the same. -/
theorem firstAfter_mono (time : Fin n → Timestamp) (htarget : target ≤ target') (h : right ≤ n) :
    firstAfter time target left right h ≤ firstAfter time target' left right h := by
  fun_induction firstAfter time target left right h with
  | case1 left right h hlt middle hmiddle ih =>
    -- what is not after the earlier target is not after the later one
    rw [firstAfter_up h hlt (by omega) (Int64.le_trans hmiddle htarget)]
    exact ih
  | case2 left right h hlt middle hmiddle ih =>
    have hinside : middle < n := by omega
    by_cases hparts : time ⟨middle, hinside⟩ ≤ target'
    · -- here the courses part, and the middle lies between their ends
      rw [firstAfter_up h hlt hinside hparts]
      calc firstAfter time target left middle _
          ≤ middle := firstAfter_le time target left middle _ (by omega)
        _ ≤ middle + 1 := Nat.le_succ middle
        _ ≤ firstAfter time target' (middle + 1) right h := le_firstAfter time target' h
    · rw [firstAfter_down h hlt hinside (Int64.not_le.1 hparts)]
      exact ih
  | case3 left right h hge => exact le_firstAfter time target' h

/-! ## Crossings -/

/-- The element is at or before the target, and the next one, if there is one, is after it; or the
element is the first one, and after the target already. -/
structure IsCrossing (time : Fin n → Timestamp) (target : Timestamp) (index : Nat) : Prop where
  inside : index < n
  crosses : (time ⟨index, inside⟩ ≤ target ∧ ∀ h : index + 1 < n, target < time ⟨index + 1, h⟩) ∨
    index = 0 ∧ target < time ⟨index, inside⟩

/-- In front of a boundary is a crossing. -/
theorem IsBoundary.isCrossing (h : IsBoundary time target position) (hle : position ≤ n)
    (hn : 0 < n) : IsCrossing time target (position - 1) := by
  cases position with
  | zero => exact ⟨hn, .inr ⟨rfl, h.after ⟨0, hn⟩ rfl⟩⟩
  | succ front => exact ⟨hle, .inl ⟨h.before ⟨front, hle⟩ rfl, fun hnext => h.after ⟨_, hnext⟩ rfl⟩⟩

theorem nearestIndex_of_pos (time : Fin n → Timestamp) (target : Timestamp) (hn : 0 < n) :
    nearestIndex time target = .ok (firstAfter time target 0 n (Nat.le_refl n) - 1) := by
  rw [nearestIndex, if_neg (Nat.ne_of_gt hn)]

/-- **What a bisection finds in any order.** In a sequence that is not empty it ends, it probes
positions of the sequence alone, and what it finds is a crossing; a later target is never found
further to the front. -/
theorem crossing_in_any_order (time : Fin n → Timestamp) (hn : 0 < n) :
    (∀ target, ∃ probes position, Bisects (elementAt time) target 0 n probes position ∧
      (∀ probe ∈ probes, probe < n) ∧ probes.length ≤ Nat.clog 2 (n + 1) ∧
      nearestIndex time target = .ok (position - 1) ∧ IsCrossing time target (position - 1)) ∧
    ∀ target target', target ≤ target' → ∃ index index', nearestIndex time target = .ok index ∧
      nearestIndex time target' = .ok index' ∧ index ≤ index' := by
  refine ⟨?_, ?_⟩
  · intro target
    obtain ⟨probes, hcourse⟩ : ∃ probes, Bisects (elementAt time) target 0 n probes
        (firstAfter time target 0 n (Nat.le_refl n)) := exists_bisects time target (Nat.le_refl n)
    have hinside : ∀ probe ∈ probes, probe < n := by
      intro probe hprobe
      obtain ⟨t, ht⟩ := hcourse.exists_of_mem probe hprobe
      exact lt_of_elementAt_eq_some ht
    have hle := firstAfter_le time target 0 n (Nat.le_refl n) (Nat.zero_le n)
    exact ⟨probes, _, hcourse, hinside, hcourse.length_le, nearestIndex_of_pos time target hn,
      (isBoundary_firstAfter_all time target).isCrossing hle hn⟩
  · intro target target' htarget
    exact ⟨_, _, nearestIndex_of_pos time target hn, nearestIndex_of_pos time target' hn,
      Nat.sub_le_sub_right (firstAfter_mono time htarget (Nat.le_refl n)) 1⟩

/-- Out of order the last element that is not after the target may be missed; the two targets are
parted by the first probe. -/
theorem crossing_in_jumping_order :
    let time : Fin 5 → Timestamp := fun i => (#[30, 10, 40, 20, 25] : Array Timestamp)[i]
    (∃ probes position, Bisects (elementAt time) 25 0 5 probes position ∧
      nearestIndex time 25 = .ok (position - 1) ∧ IsCrossing time 25 (position - 1)) ∧
    nearestIndex time 25 = .ok 1 ∧ nearestIndex time 40 = .ok 4 ∧
    ∃ index index', nearestIndex time 25 = .ok index ∧ nearestIndex time 40 = .ok index' ∧
      index ≤ index' := by
  intro time
  obtain ⟨hcourse, hmono⟩ := crossing_in_any_order time (by decide)
  obtain ⟨probes, position, hbisects, -, -, hindex, hcrossing⟩ := hcourse 25
  exact ⟨⟨probes, position, hbisects, hindex, hcrossing⟩, by decide +kernel, by decide +kernel,
    hmono 25 40 (by decide)⟩

end TraceViews
