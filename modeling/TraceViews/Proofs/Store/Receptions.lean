import TraceViews.Proofs.Sync.Delivery

/-!
# Receptions

A receiver of a broadcast may take what waits for it piece by piece. Then it is told of a gap once,
and of each value that is kept, in order (`Broadcast.receive`); to take everything at once is to
take piece by piece until nothing is left (`Broadcast.receives_deliver`). Whatever it is told, and
whenever, accounts for all that was sent to it (`Receives.accounts`).
-/

namespace TraceViews

variable {α : Type}

/-- What a receiver is told at a time: how many values it missed, the next value, or that nothing
waits for it. -/
inductive Reception (α : Type) where
  | missed (count : Nat)
  | value (a : α)
  | nothing
  deriving DecidableEq

namespace Reception

/-- The value, if there is one. -/
def value? : Reception α → Option α
  | value a => some a
  | _ => none

/-- The number of values that are reported as missed. -/
def lost : Reception α → Nat
  | missed count => count
  | _ => 0

end Reception

/-- The values that a receiver has been told of. -/
def received (told : List (Reception α)) : List α := told.filterMap Reception.value?

/-- The number of values that a receiver has missed, as far as it has been told. -/
def lost (told : List (Reception α)) : Nat := told.foldr (fun reception n => reception.lost + n) 0

/-- What a delivery tells: first of the gap, if there is one, then of each value. -/
def Delivery.receptions (d : Delivery α) : List (Reception α) :=
  (if 0 < d.missed then [.missed d.missed] else []) ++ d.values.map .value

/-! ## Accounts -/

/-- What a receiver is told accounts for what was sent: each value is told, in order, or it belongs
to a gap of which the length is told in its place. -/
inductive Accounts : List (Reception α) → List α → Prop where
  | nil : Accounts [] []
  | nothing {told : List (Reception α)} {sent : List α} (h : Accounts told sent) :
    Accounts (.nothing :: told) sent
  | value (a : α) {told : List (Reception α)} {sent : List α} (h : Accounts told sent) :
    Accounts (.value a :: told) (a :: sent)
  | missed (gap : List α) {told : List (Reception α)} {sent : List α} (h : Accounts told sent) :
    Accounts (.missed gap.length :: told) (gap ++ sent)

namespace Accounts

variable {told more : List (Reception α)} {sent rest : List α}

theorem append (h : Accounts told sent) (hmore : Accounts more rest) :
    Accounts (told ++ more) (sent ++ rest) := by
  induction h with
  | nil => exact hmore
  | nothing _ ih => exact .nothing ih
  | value a _ ih => exact .value a ih
  | missed gap _ ih =>
    rw [List.append_assoc]
    exact .missed gap ih

/-- Every value counts, be it told or missed. -/
theorem length_add_lost (h : Accounts told sent) :
    (received told).length + lost told = sent.length := by
  induction h with
  | nil => rfl
  | nothing _ ih =>
    simp only [received, lost, List.filterMap_cons, Reception.value?, List.foldr_cons,
      Reception.lost] at ih ⊢
    omega
  | value a _ ih =>
    simp only [received, lost, List.filterMap_cons, Reception.value?, List.foldr_cons,
      Reception.lost, List.length_cons] at ih ⊢
    omega
  | missed gap _ ih =>
    simp only [received, lost, List.filterMap_cons, Reception.value?, List.foldr_cons,
      Reception.lost, List.length_append] at ih ⊢
    omega

/-- Values are told in the order of sending. -/
theorem sublist (h : Accounts told sent) : (received told).Sublist sent := by
  induction h with
  | nil => exact .slnil
  | nothing _ ih => exact ih
  | value a _ ih => exact ih.cons_cons a
  | missed gap _ ih => exact ih.trans (List.sublist_append_right gap _)

/-- If nothing was missed, everything was told. -/
theorem received_eq (h : Accounts told sent) (hlost : lost told = 0) : received told = sent := by
  refine h.sublist.eq_of_length ?_
  rw [← h.length_add_lost, hlost, Nat.add_zero]

end Accounts

/-! ## Receiving -/

namespace Broadcast

variable {capacity : Nat} {b : Broadcast capacity α} {earlier waiting : List α}

/-- Gives a receiver the next piece of what waits for it. One that has fallen too far behind is told
so, and goes on with the oldest value that is kept. -/
def receive (b : Broadcast capacity α) (c : Cursor) : Reception α × Cursor :=
  if c < b.oldest then (.missed (b.oldest - c), b.oldest)
  else
    match b.sent[c]? with
    | some a => (.value a, c + 1)
    | none => (.nothing, c)

/-- The oldest value that is kept, as a receiver sees it that is behind by some values. -/
theorem oldest_behind (h : b.sent.toList = earlier ++ waiting) :
    b.oldest = earlier.length + waiting.length - capacity := by
  rw [oldest, ← Array.length_toList, h, List.length_append]

theorem receive_of_gap (h : b.sent.toList = earlier ++ waiting) (hgap : capacity < waiting.length) :
    b.receive earlier.length = (.missed (waiting.length - capacity),
      (earlier ++ waiting.take (waiting.length - capacity)).length) := by
  have holdest : b.oldest = earlier.length + (waiting.length - capacity) :=
    (oldest_behind h).trans (Nat.add_sub_assoc (Nat.le_of_lt hgap) _)
  have hbehind : earlier.length < b.oldest := by
    rw [holdest]
    exact Nat.lt_add_of_pos_right (Nat.sub_pos_of_lt hgap)
  rw [receive, if_pos hbehind, holdest, Nat.add_sub_cancel_left, List.length_append,
    List.length_take, Nat.min_eq_left (Nat.sub_le ..)]

theorem receive_of_kept (h : b.sent.toList = earlier ++ waiting) (hkept : waiting.length ≤ capacity) :
    b.receive earlier.length =
      match waiting.head? with
      | some a => (.value a, (earlier ++ [a]).length)
      | none => (.nothing, earlier.length) := by
  have hbehind : ¬ earlier.length < b.oldest := by
    rw [oldest_behind h, Nat.not_lt, Nat.sub_le_iff_le_add]
    exact Nat.add_le_add_left hkept _
  have hnext : b.sent[earlier.length]? = waiting.head? := by
    rw [← Array.getElem?_toList, h, List.getElem?_append_right (Nat.le_refl _), Nat.sub_self,
      List.head?_eq_getElem?]
  rw [receive, if_neg hbehind, hnext]
  cases waiting.head? with
  | none => rfl
  | some a => simp only [List.length_append, List.length_singleton]

/-- **A piece accounts for a stretch** of what waits. -/
theorem accounts_receive (h : b.sent.toList = earlier ++ waiting) :
    ∃ heard rest, waiting = heard ++ rest ∧
      (b.receive earlier.length).2 = (earlier ++ heard).length ∧
      Accounts [(b.receive earlier.length).1] heard := by
  by_cases hgap : capacity < waiting.length
  · refine ⟨waiting.take (waiting.length - capacity), waiting.drop (waiting.length - capacity),
      (List.take_append_drop ..).symm, ?_⟩
    rw [receive_of_gap h hgap]
    refine ⟨rfl, ?_⟩
    have hmissed := Accounts.missed (waiting.take (waiting.length - capacity)) .nil
    rwa [List.append_nil, List.length_take, Nat.min_eq_left (Nat.sub_le ..)] at hmissed
  · rw [receive_of_kept h (Nat.le_of_not_lt hgap)]
    cases waiting with
    | nil => exact ⟨[], [], rfl, congrArg List.length (List.append_nil earlier).symm, .nothing .nil⟩
    | cons a rest => exact ⟨[a], rest, rfl, rfl, .value a .nil⟩

/-- Nothing waits just for those who have been told of everything. -/
theorem receive_eq_nothing_iff (h : b.sent.toList = earlier ++ waiting) :
    (b.receive earlier.length).1 = .nothing ↔ waiting = [] := by
  by_cases hgap : capacity < waiting.length
  · rw [receive_of_gap h hgap]
    refine iff_of_false nofun ?_
    rintro rfl
    cases hgap
  · rw [receive_of_kept h (Nat.le_of_not_lt hgap)]
    cases waiting <;> simp

/-- What is told piece by piece from one place to another. -/
inductive Receives (b : Broadcast capacity α) : Cursor → List (Reception α) → Cursor → Prop where
  | nil (c : Cursor) : Receives b c [] c
  | cons {c c' : Cursor} {told : List (Reception α)} (h : Receives b (b.receive c).2 told c') :
    Receives b c ((b.receive c).1 :: told) c'

/-- What is told piece by piece accounts for a stretch of what waits. -/
theorem Receives.accounts {c c' : Cursor} {told : List (Reception α)} (h : b.Receives c told c')
    (hsent : b.sent.toList = earlier ++ waiting) (hc : c = earlier.length) :
    ∃ heard rest, waiting = heard ++ rest ∧ c' = (earlier ++ heard).length ∧
      Accounts told heard := by
  induction h generalizing earlier waiting with
  | nil c => exact ⟨[], waiting, rfl, by rw [hc, List.append_nil], .nil⟩
  | cons h ih =>
    subst hc
    obtain ⟨heard, rest, rfl, hnext, haccounts⟩ := accounts_receive hsent
    obtain ⟨more, rest', rfl, hlast, hmore⟩ := ih (by rw [hsent, List.append_assoc]) hnext
    refine ⟨heard ++ more, rest', (List.append_assoc ..).symm, ?_, haccounts.append hmore⟩
    rw [hlast, List.append_assoc]

theorem receives_kept (h : b.sent.toList = earlier ++ waiting) (hkept : waiting.length ≤ capacity) :
    b.Receives earlier.length (waiting.map .value) b.sent.size := by
  induction waiting generalizing earlier with
  | nil =>
    rw [← Array.length_toList, h, List.append_nil]
    exact .nil _
  | cons a rest ih =>
    have hreceive := receive_of_kept h hkept
    have hnext : b.sent.toList = (earlier ++ [a]) ++ rest := by
      rw [h, List.append_assoc]
      rfl
    have hrest := ih hnext (Nat.le_of_succ_le hkept)
    have hcons : b.Receives earlier.length ((b.receive earlier.length).1 :: rest.map .value)
        b.sent.size := by
      refine .cons ?_
      rw [hreceive]
      exact hrest
    rw [hreceive] at hcons
    exact hcons

/-- **A delivery is what is told piece by piece** until nothing waits. -/
theorem receives_deliver (h : b.sent.toList = earlier ++ waiting) :
    b.Receives earlier.length (b.deliver earlier.length).receptions (b.deliver earlier.length).next ∧
      b.receive (b.deliver earlier.length).next = (.nothing, (b.deliver earlier.length).next) := by
  obtain ⟨hmissed, hvalues⟩ := deliver_behind h
  have hnext : (b.deliver earlier.length).next = b.sent.size := rfl
  refine ⟨?_, ?_⟩
  · rw [Delivery.receptions, hmissed, hvalues, hnext]
    by_cases hgap : capacity < waiting.length
    · have hsplit : b.sent.toList = (earlier ++ waiting.take (waiting.length - capacity))
          ++ waiting.drop (waiting.length - capacity) := by
        rw [List.append_assoc, List.take_append_drop, h]
      have hkept := receives_kept hsplit (by rw [List.length_drop]; omega)
      have hreceive := receive_of_gap h hgap
      have hcons : b.Receives earlier.length ((b.receive earlier.length).1
          :: (waiting.drop (waiting.length - capacity)).map .value) b.sent.size := by
        refine .cons ?_
        rw [hreceive]
        exact hkept
      rw [if_pos (by omega)]
      rw [hreceive] at hcons
      exact hcons
    · rw [if_neg (by omega), Nat.sub_eq_zero_of_le (Nat.le_of_not_lt hgap), List.drop_zero]
      exact receives_kept h (Nat.le_of_not_lt hgap)
  · have hend : b.sent.toList = b.sent.toList ++ [] := (List.append_nil _).symm
    have hnothing := receive_of_kept hend (Nat.zero_le _)
    rw [Array.length_toList] at hnothing
    rw [hnext, hnothing]
    rfl

end Broadcast

end TraceViews
