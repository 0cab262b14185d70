import TraceViews.Record

/-!
# Finding a point in time

The nearest element of a sequence to a point in time is the last one at or before it, found by
bisection. The sequence is given by its length and a function from the positions below it, so a
probe outside of it cannot be written down. The sequence need not be ordered; then the order of the
probes decides.
-/

namespace TraceViews

/-- Why a store, a view or a sender has no answer. -/
inductive StoreError where
  | outOfRange (index length : Nat)
  | empty
  | closed
  deriving DecidableEq, Repr

namespace StoreError

def message : StoreError → String
  | outOfRange index length =>
    "Index " ++ Text.showNat index ++ " out of range for " ++ Text.showNat length ++ " rows"
  | empty => "No records to search"
  | closed => "Trace store has been dropped"

end StoreError

/-- Bisects the positions from `left` to `right` for the first one after `target`. -/
def firstAfter {n : Nat} (time : Fin n → Timestamp) (target : Timestamp) (left right : Nat)
    (h : right ≤ n) : Nat :=
  if hlt : left < right then
    let middle := left + (right - left) / 2
    if time ⟨middle, by omega⟩ ≤ target then firstAfter time target (middle + 1) right h
    else firstAfter time target left middle (by omega)
  else left
termination_by right - left
decreasing_by all_goals omega

theorem firstAfter_le {n : Nat} (time : Fin n → Timestamp) (target : Timestamp) (left right : Nat)
    (h : right ≤ n) (hle : left ≤ right) : firstAfter time target left right h ≤ right := by
  fun_induction firstAfter time target left right h with
  | case1 left right h hlt middle hbefore ih => exact ih (by omega)
  | case2 left right h hlt middle hafter ih => exact Nat.le_trans (ih (by omega)) (by omega)
  | case3 left right h hge => exact hle

/-- The position of the last element at or before `target`, or the first position if there is
none. -/
def nearestIndex {n : Nat} (time : Fin n → Timestamp) (target : Timestamp) :
    Except StoreError Nat :=
  if n = 0 then .error .empty else .ok (firstAfter time target 0 n (Nat.le_refl n) - 1)

theorem lt_of_nearestIndex {n : Nat} {time : Fin n → Timestamp} {target : Timestamp} {index : Nat}
    (h : nearestIndex time target = .ok index) : index < n := by
  rw [nearestIndex] at h
  split at h
  · cases h
  · next hn =>
    cases h
    have hle := firstAfter_le time target 0 n (Nat.le_refl n) (Nat.zero_le n)
    omega

end TraceViews
