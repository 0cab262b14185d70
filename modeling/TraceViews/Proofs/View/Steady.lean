import TraceViews.Proofs.View.Notices

/-!
# Views at rest

A view is steady if it has taken stock of its rows since the last change of the store. Then reading
it changes nothing, and the rows that its notices speak of are there. The steps of a view keep it
steady or make it so, and none of them but a selection that is followed moves it in its hub.
-/

namespace TraceViews

/-- The rows that a notice presents are among the first `count`. -/
def Notice.Within (count : Nat) : Notice → Prop
  | inserted span => span.stop ≤ count
  | scrollTo row => row < count
  | _ => True

theorem Notice.Within.of_removal {was count : Nat} {changes : List Change} {x : Notice}
    (h : x ∈ removal was changes) : x.Within count := by
  rw [removal] at h
  split at h
  · cases List.mem_singleton.1 h
    trivial
  · cases h

namespace View

variable {v v' : View} {s s' : Store} {hub : Hub}

theorem notices_install (v : View) (s : Store) (filter : Option RecordFilter) :
    (v.install s filter).notices.toList = v.notices.toList ++ [.reset] :=
  notices_reset _ s

/-! ## What is no part of the account -/

/-- The account of a view is its rows, what it has reported of them, and the notices of that. The
function looks at something else. -/
def IgnoresAccount {α : Type} (f : View → α) : Prop :=
  ∀ v rows generation reported cursor notices,
    f { v with rows, rowsGeneration := generation, reported, cursor, notices } = f v

namespace IgnoresAccount

variable {α : Type} {f : View → α} (h : IgnoresAccount f)
include h

theorem current (v : View) (s : Store) : f (v.current s) = f v :=
  apply_current s fun _ _ => h v _ _ _ _ _

theorem reset (v : View) (s : Store) : f (v.reset s) = f v := by
  let started : View := { v with cursor := s.changes.subscribe }
  calc f (v.reset s)
    _ = f (started.current s) := h (started.current s) _ _ _ _ _
    _ = f started := h.current started s
    _ = f v := h v _ _ _ _ _

theorem observe (v : View) (change : Change) : f (v.observe change) = f v := by
  cases change with
  | inserted span => rfl
  | cleared removed =>
    rw [View.observe]
    split <;> exact h v _ _ _ _ _

theorem foldl_observe (v : View) (changes : List Change) : f (changes.foldl View.observe v) = f v := by
  induction changes generalizing v with
  | nil => rfl
  | cons change changes ih => exact (ih (v.observe change)).trans (h.observe v change)

theorem report (v : View) (s : Store) : f (v.report s) = f v := by
  refine Eq.trans ?_ (h.current v s)
  rw [View.report]
  split
  · exact h (v.current s) _ _ _ _ _
  · split <;> exact h (v.current s) _ _ _ _ _

theorem refresh (v : View) (s : Store) : f (v.refresh s) = f v := by
  have hobserved := h.foldl_observe { v with cursor := (s.changes.deliver v.cursor).next }
    (s.changes.deliver v.cursor).values
  have hcursor := h v v.rows v.rowsGeneration v.reported (s.changes.deliver v.cursor).next v.notices
  rw [View.refresh]
  split
  · exact (h.reset _ s).trans (hobserved.trans hcursor)
  · exact (h.report _ s).trans (hobserved.trans hcursor)

end IgnoresAccount

theorem ignoresAccount_filter : IgnoresAccount filter := fun _ _ _ _ _ _ => rfl

theorem ignoresAccount_template : IgnoresAccount template := fun _ _ _ _ _ _ => rfl

theorem ignoresAccount_participant : IgnoresAccount participant := fun _ _ _ _ _ _ => rfl

/-! ## Steady views -/

/-- Reading a view that is in sync changes nothing. -/
theorem InSync.current_eq (h : v.InSync s) : v.current s = v := by
  rw [current, if_pos h.fresh]

theorem InSync.rowCount_eq (h : v.InSync s) : v.rowCount s = v.reported := by
  rw [rowCount, h.current_eq, h.reported]

/-- A view whose rows are those of the store, all of them reported. -/
structure Steady (v : View) (s : Store) : Prop where
  valid : v.Valid s
  inSync : v.InSync s

namespace Steady

/-- A view speaks of the visible records and their changes alone. -/
theorem of_store (h : v.Steady s) (hrecords : s'.records = s.records)
    (hgeneration : s'.generation = s.generation) (hchanges : s'.changes = s.changes) :
    v.Steady s' := by
  refine ⟨?_, ?_, h.inSync.reported, ?_⟩
  · intro generation hg
    rw [hrecords, hgeneration]
    exact h.valid generation hg
  · rw [hchanges]
    exact h.inSync.cursor
  · rw [hgeneration]
    exact h.inSync.fresh

theorem ofStore (s : Store) : (View.ofStore s).Steady s :=
  ⟨.ofStore s, inSync_ofStore s⟩

theorem syncs (h : v.Valid s) (hs : v.Syncs s v') : v'.Steady s :=
  ⟨h.syncs hs, hs.inSync⟩

/-- Between two sync points a steady view stays as it is. -/
theorem keeps (h : v.Steady s) (hk : v.Keeps s v') : v'.Steady s := by
  have hrows : v'.rows = v.rows ∧ v'.rowsGeneration = v.rowsGeneration := by
    rcases hk.rows with hrows | hrows
    · exact hrows
    · rw [h.inSync.current_eq] at hrows
      exact hrows
  refine ⟨h.valid.keeps hk, hk.cursor.trans h.inSync.cursor, ?_, hrows.2.trans h.inSync.fresh⟩
  rw [hk.reported, hrows.1]
  exact h.inSync.reported

/-- The positions of the rows lie inside the store. -/
theorem getElem?_of_mem_rows (h : v.Steady s) {row : Row} (hrow : row ∈ v.rows.toList) :
    s.records[row.index]? = some row.record := by
  have hrows := h.valid.rows_current
  rw [h.inSync.current_eq] at hrows
  rw [hrows] at hrow
  exact getElem?_of_mem_selectRows _ _ hrow

end Steady

/-! ## Notices and rows -/

theorem within_of_mem_report {x : Notice} (h : x ∈ (v.report s).notices.toList) :
    x ∈ v.notices.toList ∨ x.Within (v.report s).reported := by
  rw [report] at h ⊢
  dsimp only at h ⊢
  split at h
  · rw [notify, Array.toList_push, List.mem_append, notices_current] at h
    refine h.imp_right ?_
    intro hx
    cases List.mem_singleton.1 hx
    exact Nat.le_refl _
  · split at h
    · rw [notify, Array.toList_push, List.mem_append, notices_current] at h
      refine h.imp_right ?_
      intro hx
      cases List.mem_singleton.1 hx
      trivial
    · rw [notices_current] at h
      exact .inl h

/-- What a refresh adds speaks of rows that are there. -/
theorem within_of_mem_refresh {x : Notice} (h : x ∈ (v.refresh s).notices.toList) :
    x ∈ v.notices.toList ∨ x.Within (v.refresh s).reported := by
  obtain ⟨-, -, -, hnotices⟩ := foldl_observe
    { v with cursor := (s.changes.deliver v.cursor).next } (s.changes.deliver v.cursor).values
  have hobserved : ∀ {count : Nat}, x ∈ ((s.changes.deliver v.cursor).values.foldl observe
      { v with cursor := (s.changes.deliver v.cursor).next }).notices.toList →
      x ∈ v.notices.toList ∨ x.Within count := by
    intro count hx
    rw [hnotices, List.mem_append] at hx
    exact hx.imp_right .of_removal
  rw [refresh] at h ⊢
  split at h
  · next hmissed =>
    rw [notices_reset, List.mem_append] at h
    rcases h with h | h
    · exact hobserved h
    · cases List.mem_singleton.1 h
      exact .inr trivial
  · next hmissed =>
    rw [if_neg hmissed]
    rcases within_of_mem_report h with h | h
    · exact hobserved h
    · exact .inr h

/-- The rows that are counted are those of the filter, whatever else a view holds. -/
theorem rowCount_congr (hfilter : v'.filter = v.filter) (hrows : v'.rows = v.rows)
    (hgeneration : v'.rowsGeneration = v.rowsGeneration) : v'.rowCount s = v.rowCount s := by
  rw [rowCount, rowCount, current, current, hgeneration]
  split
  · rw [hrows]
  · rw [hfilter]

/-- The rows that are counted are there. -/
theorem exists_row_of_lt {row : Nat} (h : row < v.rowCount s) : ∃ x, v.row s row = .ok x := by
  rw [rowCount] at h
  rw [View.row, Array.getElem?_eq_getElem h]
  exact ⟨_, rfl⟩

theorem exists_record_of_lt {row : Nat} (h : row < v.rowCount s) :
    ∃ r, v.record s row = .ok r := by
  obtain ⟨x, hx⟩ := exists_row_of_lt h
  rw [record, hx]
  exact ⟨_, rfl⟩

theorem data_of_record {row : Nat} {r : Record} (h : v.record s row = .ok r) :
    v.data s row = .ok (v.template.render r) := by
  rw [data, h]
  rfl

/-! ## Following -/

theorem lt_of_nearestRow {target : Timestamp} {row : Nat} (h : v.nearestRow s target = .ok row) :
    row < v.rowCount s := by
  rw [nearestRow] at h
  exact lt_of_nearestIndex h

/-- A view that follows has heard of all selections. -/
theorem participant_follow (s : Store) (hub : Hub) {p : Participant} (hp : v.participant = some p) :
    (v.follow s hub).2.participant = some { p with cursor := hub.selections.sent.size } := by
  rw [follow, hp]
  dsimp only [Hub.latest, Broadcast.deliver]
  split
  · rfl
  · split
    · exact ignoresAccount_participant.current _ s
    · exact ignoresAccount_participant.current _ s

/-- **What following does** to a view that is in sync: it has heard of all selections, and may have a
notice of a row that is there. -/
theorem InSync.follow_spec (h : v.InSync s) (hub : Hub) {p : Participant}
    (hp : v.participant = some p) :
    ∃ notices, (v.follow s hub).2 = { v with
        participant := some { p with cursor := hub.selections.sent.size }, notices } ∧
      ∀ x ∈ notices.toList, x ∈ v.notices.toList ∨ x.Within (v.rowCount s) := by
  rw [follow, hp]
  dsimp only [Hub.latest, Broadcast.deliver]
  simp only [current_participant, h.current_eq]
  split
  · exact ⟨v.notices, rfl, fun x hx => .inl hx⟩
  · split
    · exact ⟨v.notices, rfl, fun x hx => .inl hx⟩
    · next row hrow =>
      refine ⟨_, rfl, ?_⟩
      intro x hx
      rw [Array.toList_push, List.mem_append] at hx
      refine hx.imp_right ?_
      intro hx
      cases List.mem_singleton.1 hx
      exact Nat.lt_of_lt_of_eq (lt_of_nearestRow hrow) (rowCount_congr rfl rfl rfl)

end View

end TraceViews
