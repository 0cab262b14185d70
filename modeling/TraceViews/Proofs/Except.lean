/-!
# Computations that may fail

A computation of several steps succeeds if each of its steps does, and fails with the error of the
first one that fails.
-/

namespace TraceViews

variable {α β ε : Type}

theorem exists_of_isOk {x : Except ε α} (h : x.isOk = true) : ∃ a, x = .ok a := by
  cases x with
  | error e => cases h
  | ok a => exact ⟨a, rfl⟩

theorem eq_ok_of_toOption {x : Except ε α} {a : α} (h : x.toOption = some a) : x = .ok a := by
  cases x with
  | error e => cases h
  | ok b =>
    cases h
    rfl

theorem eq_error_of_match {x : Except ε α} {e : ε}
    (h : (match x with | .ok _ => none | .error e => some e) = some e) : x = .error e := by
  cases x with
  | error e =>
    cases h
    rfl
  | ok a => cases h

/-- A computation that succeeds does so in each of its steps. -/
theorem exists_of_bind_eq_ok {x : Except ε α} {f : α → Except ε β} {b : β}
    (h : (x >>= f) = .ok b) : ∃ a, x = .ok a ∧ f a = .ok b := by
  cases x with
  | error e => cases h
  | ok a => exact ⟨a, rfl, h⟩

theorem bind_eq_ok_iff {x : Except ε α} {f : α → Except ε β} {b : β} :
    (x >>= f) = .ok b ↔ ∃ a, x = .ok a ∧ f a = .ok b := by
  refine ⟨exists_of_bind_eq_ok, ?_⟩
  rintro ⟨a, rfl, h⟩
  exact h

theorem map_eq_ok_iff {x : Except ε α} {f : α → β} {b : β} :
    x.map f = .ok b ↔ ∃ a, x = .ok a ∧ f a = b := by
  cases x with
  | error e => simp [Except.map]
  | ok a => simp [Except.map]

/-- A walk over a list ends with the error of the first element that has one. -/
theorem forM_eq_error_iff {f : α → Except ε Unit} {l : List α} {x : ε} :
    forM l f = .error x ↔
      ∃ before a after, l = before ++ a :: after ∧ (∀ b ∈ before, f b = .ok ()) ∧
        f a = .error x := by
  induction l with
  | nil => simp [pure, Except.pure]
  | cons a l ih =>
    rw [List.forM_cons]
    cases ha : f a with
    | error e =>
      -- the walk ends here, so nothing comes before
      constructor
      · intro h
        cases h
        exact ⟨[], a, l, rfl, nofun, ha⟩
      · rintro ⟨before, b, after, heq, hbefore, hb⟩
        cases before with
        | nil =>
          cases heq
          exact ha.symm.trans hb
        | cons c before =>
          cases heq
          cases ha.symm.trans (hbefore a List.mem_cons_self)
    | ok u =>
      refine Iff.trans ih ?_
      constructor
      · rintro ⟨before, b, after, rfl, hbefore, hb⟩
        exact ⟨a :: before, b, after, rfl, List.forall_mem_cons.2 ⟨ha, hbefore⟩, hb⟩
      · rintro ⟨before, b, after, heq, hbefore, hb⟩
        cases before with
        | nil =>
          cases heq
          cases ha.symm.trans hb
        | cons c before =>
          cases heq
          exact ⟨before, b, after, rfl, (List.forall_mem_cons.1 hbefore).2, hb⟩

theorem forM_eq_ok_iff {f : α → Except ε Unit} {l : List α} :
    forM l f = .ok () ↔ ∀ a ∈ l, f a = .ok () := by
  induction l with
  | nil => simp [pure, Except.pure]
  | cons a l ih =>
    rw [List.forM_cons, List.forall_mem_cons, ← ih]
    cases f a with
    | error e => simp [bind, Except.bind]
    | ok u => simp [bind, Except.bind]

theorem mapM_eq_ok_map {f : α → Except ε β} {g : α → β} {l : List α}
    (h : ∀ a ∈ l, f a = .ok (g a)) : l.mapM f = .ok (l.map g) := by
  induction l with
  | nil => rfl
  | cons a l ih =>
    obtain ⟨ha, hl⟩ := List.forall_mem_cons.1 h
    rw [List.mapM_cons, ha, ih hl]
    rfl

theorem exists_mapM_eq_ok {f : α → Except ε β} {l : List α} (h : ∀ a ∈ l, ∃ b, f a = .ok b) :
    ∃ bs, l.mapM f = .ok bs := by
  induction l with
  | nil => exact ⟨[], rfl⟩
  | cons a l ih =>
    obtain ⟨hhead, htail⟩ := List.forall_mem_cons.1 h
    obtain ⟨b, hb⟩ := hhead
    obtain ⟨bs, hbs⟩ := ih htail
    refine ⟨b :: bs, ?_⟩
    rw [List.mapM_cons, hb, hbs]
    rfl

theorem exists_of_mem_mapM {f : α → Except ε β} {l : List α} {bs : List β}
    (h : l.mapM f = .ok bs) {b : β} (hb : b ∈ bs) : ∃ a ∈ l, f a = .ok b := by
  induction l generalizing bs with
  | nil =>
    cases h
    cases hb
  | cons a l ih =>
    rw [List.mapM_cons] at h
    obtain ⟨b', hb', h⟩ := exists_of_bind_eq_ok h
    obtain ⟨bs', hbs', h⟩ := exists_of_bind_eq_ok h
    cases h
    cases hb with
    | head => exact ⟨a, List.mem_cons_self, hb'⟩
    | tail _ hb =>
      obtain ⟨a', ha', hfa'⟩ := ih hbs' hb
      exact ⟨a', List.mem_cons_of_mem a ha', hfa'⟩

theorem exists_of_mem_vector_mapM {n : Nat} {f : α → Except ε β} {as : Vector α n}
    {bs : Vector β n} (h : as.mapM f = .ok bs) {b : β} (hb : b ∈ bs.toList) :
    ∃ a ∈ as.toList, f a = .ok b := by
  have harray : as.toArray.mapM f = .ok bs.toArray := by
    rw [← Vector.toArray_mapM, h]
    rfl
  have hlist : as.toList.mapM f = .ok bs.toList := by
    show as.toArray.toList.mapM f = _
    rw [← Array.toList_mapM, harray]
    rfl
  exact exists_of_mem_mapM hlist hb

end TraceViews
