import TraceViews.Proofs.Workspace.Operations

/-!
# The rows of a view

A view keeps its rows with the generation of the store that they were taken from. In every run the
rows are those of a fresh scan as long as the generation is the store's (`View.Valid`), so what a
view answers is what a fresh scan would give (`Workspace.Shows`).
-/

namespace TraceViews

/-! ## Fresh scans -/

/-- The visible records that pass a filter, in order. -/
def shown (filter : Option RecordFilter) (records : Array Record) : List Record :=
  records.toList.filter (passes filter)

/-- The positions in the store of the visible records that pass a filter. -/
def shownAt (filter : Option RecordFilter) (records : Array Record) : List Nat :=
  (List.range records.size).filter fun i => records[i]?.any (passes filter)

section Scan

variable (filter : Option RecordFilter) (records : Array Record)

theorem mem_shownAt (index : Nat) :
    index ∈ shownAt filter records ↔ ∃ r, records[index]? = some r ∧ passes filter r = true := by
  rw [shownAt, List.mem_filter, List.mem_range, Option.any_eq_true]
  constructor
  · rintro ⟨-, h⟩
    exact h
  · rintro ⟨r, hr, hpass⟩
    obtain ⟨hlt, -⟩ := Array.getElem?_eq_some_iff.1 hr
    exact ⟨hlt, r, hr, hpass⟩

theorem pairwise_shownAt : (shownAt filter records).Pairwise (· < ·) :=
  List.Pairwise.filter _ List.pairwise_lt_range

theorem toList_selectRows :
    (selectRows filter records).toList
      = (records.toList.zipIdx.filter fun x => passes filter x.1).map fun x => ⟨x.2, x.1⟩ := by
  rw [selectRows, List.toList_toArray, ← List.filterMap_eq_map', List.filterMap_filter]

/-- The rows stand for the positions of a fresh scan. -/
theorem index_selectRows :
    (selectRows filter records).toList.map Row.index = shownAt filter records := by
  have hfilter : records.toList.zipIdx.filter (fun x => passes filter x.1)
      = records.toList.zipIdx.filter ((fun i => records[i]?.any (passes filter)) ∘ Prod.snd) := by
    refine List.filter_congr ?_
    intro x hx
    -- a numbered record is the one that the store has at its number
    have hx := List.mem_zipIdx_iff_getElem?.1 hx
    rw [Array.getElem?_toList] at hx
    rw [Function.comp, hx]
    rfl
  rw [toList_selectRows, List.map_map, hfilter]
  show ((records.toList.zipIdx.filter _).map Prod.snd) = _
  rw [← List.filter_map, List.zipIdx_map_snd, ← List.range_eq_range', Array.length_toList]
  rfl

/-- The rows stand for the records of a fresh scan. -/
theorem record_selectRows :
    (selectRows filter records).toList.map Row.record = shown filter records := by
  rw [toList_selectRows, List.map_map]
  show ((records.toList.zipIdx.filter ((passes filter) ∘ Prod.fst)).map Prod.fst) = _
  rw [← List.filter_map, List.zipIdx_map_fst]
  rfl

/-- The record of a row is the one that the store has at its position. -/
theorem getElem?_of_mem_selectRows {row : Row} (h : row ∈ (selectRows filter records).toList) :
    records[row.index]? = some row.record := by
  rw [toList_selectRows] at h
  obtain ⟨x, hx, rfl⟩ := List.mem_map.1 h
  have hx := List.mem_zipIdx_iff_getElem?.1 (List.mem_filter.1 hx).1
  rw [Array.getElem?_toList] at hx
  exact hx

theorem map_shownAt :
    (shownAt filter records).map (records[·]?) = (shown filter records).map some := by
  rw [← index_selectRows, ← record_selectRows, List.map_map, List.map_map]
  exact List.map_congr_left fun row h => getElem?_of_mem_selectRows filter records h

theorem length_shownAt : (shownAt filter records).length = (shown filter records).length := by
  rw [← index_selectRows, ← record_selectRows, List.length_map, List.length_map]

theorem size_selectRows :
    (selectRows filter records).size = (shown filter records).length := by
  rw [← record_selectRows, List.length_map, Array.length_toList]

end Scan

/-! ## Rows and generations -/

namespace View

/-- The rows are at most as new as the store, and those of a fresh scan if they are as new. -/
def Valid (v : View) (s : Store) : Prop :=
  ∀ generation, v.rowsGeneration = some generation →
    generation ≤ s.generation ∧
      (generation = s.generation → v.rows = selectRows v.filter s.records)

variable {v v' : View} {s s' : Store}

/-- What has been brought up to date is a fresh scan. -/
theorem Valid.rows_current (h : v.Valid s) :
    (v.current s).rows = selectRows v.filter s.records := by
  rw [current]
  by_cases hg : v.rowsGeneration = some s.generation
  · rw [if_pos hg]
    exact (h s.generation hg).2 rfl
  · rw [if_neg hg]

/-- Validity speaks of the filter and the rows alone. -/
theorem Valid.of_eq (h : v.Valid s) (hf : v'.filter = v.filter) (hrows : v'.rows = v.rows)
    (hg : v'.rowsGeneration = v.rowsGeneration) : v'.Valid s := by
  intro generation hgen
  rw [hf, hrows]
  exact h generation (hg ▸ hgen)

theorem Valid.of_none (h : v.rowsGeneration = none) : v.Valid s := by
  intro generation hgen
  rw [h] at hgen
  cases hgen

theorem Valid.current (h : v.Valid s) : (v.current s).Valid s := by
  intro generation hgen
  rw [rowsGeneration_current] at hgen
  cases hgen
  rw [filter_current]
  exact ⟨Nat.le_refl _, fun _ => h.rows_current⟩

/-! ### Steps -/

/-- A change of the store leaves all rows behind. -/
theorem Valid.older (h : v.Valid s) (hnext : s'.generation = s.generation + 1) : v.Valid s' := by
  intro generation hgen
  obtain ⟨hle, -⟩ := h generation hgen
  rw [hnext]
  refine ⟨Nat.le_succ_of_le hle, ?_⟩
  intro heq
  -- rows are never newer than the store that they were taken from
  omega

theorem Valid.step {change : Option Change} (h : v.Valid s) (hs : s.Step change s') :
    v.Valid s' := by
  cases hs with
  | stay => exact h
  | enqueue r => exact h
  | drain hq =>
    rw [Store.drain_of_queue hq]
    exact h.older rfl
  | clear => exact h.older rfl

theorem Valid.keeps (h : v.Valid s) (hk : v.Keeps s v') : v'.Valid s := by
  rcases hk.rows with ⟨hrows, hg⟩ | ⟨hrows, hg⟩
  · exact h.of_eq hk.filter hrows hg
  · exact h.current.of_eq (hk.filter.trans (filter_current v s).symm) hrows hg

theorem Valid.reset (h : v.Valid s) : (v.reset s).Valid s := by
  have hcursor : View.Valid { v with cursor := s.changes.subscribe } s := h.of_eq rfl rfl rfl
  exact hcursor.current.of_eq rfl rfl rfl

theorem Valid.install (v : View) (s : Store) (filter : Option RecordFilter) :
    (v.install s filter).Valid s :=
  (Valid.of_none rfl).reset

theorem Valid.ofStore (s : Store) : (View.ofStore s).Valid s := by
  have hnone : View.Valid
      { filter := none, template := .standard, rows := #[], rowsGeneration := none, reported := 0
        cursor := s.changes.subscribe, notices := #[], participant := none } s := .of_none rfl
  exact hnone.current.of_eq rfl rfl rfl

theorem Valid.observe (h : v.Valid s) (change : Change) : (v.observe change).Valid s := by
  cases change with
  | inserted span => exact h
  | cleared removed =>
    rw [View.observe]
    split
    · exact h.of_eq rfl rfl rfl
    · exact h.of_eq rfl rfl rfl

theorem Valid.foldl_observe (h : v.Valid s) (changes : List Change) :
    (changes.foldl View.observe v).Valid s := by
  induction changes generalizing v with
  | nil => exact h
  | cons change changes ih => exact ih (h.observe change)

theorem Valid.report (h : v.Valid s) : (v.report s).Valid s := by
  rw [View.report]
  refine h.current.of_eq ?_ ?_ ?_
  all_goals
    dsimp only
    split
    · rfl
    · split <;> rfl

theorem Valid.refresh (h : v.Valid s) : (v.refresh s).Valid s := by
  have hcursor : ∀ next, View.Valid { v with cursor := next } s := fun _ => h.of_eq rfl rfl rfl
  have hobserved := (hcursor s.changes.sent.size).foldl_observe
    (s.changes.deliver v.cursor).values
  rw [View.refresh]
  split
  · exact hobserved.reset
  · exact hobserved.report

theorem Valid.syncs (h : v.Valid s) (hs : v.Syncs s v') : v'.Valid s := by
  cases hs with
  | refresh => exact h.refresh
  | install filter => exact .install v s filter

end View

/-! ### Runs -/

namespace Workspace

theorem valid_apply {w : Workspace} (h : ∀ n v, w.view? n = some v → v.Valid w.store)
    (op : Operation) (n : Nat) (v : View) (hv : (w.apply op).view? n = some v) :
    v.Valid (w.apply op).store := by
  have hstep := step_apply w op
  -- the view is valid against the store it was made with, and then the store moves on
  rcases view?_apply hv with ⟨-, -, rfl | ⟨u, hu, hsyncs⟩⟩ | ⟨-, u, hu, hkeeps⟩
  · exact (View.Valid.ofStore w.store).step hstep
  · exact ((h n u hu).syncs hsyncs).step hstep
  · exact ((h n u hu).keeps hkeeps).step hstep

/-- **No run makes a view's rows stale** without the generations telling them apart. -/
theorem valid_run {w : Workspace} (h : ∀ n v, w.view? n = some v → v.Valid w.store)
    (ops : List Operation) (n : Nat) (v : View) (hv : (w.run ops).view? n = some v) :
    v.Valid (w.run ops).store := by
  induction ops generalizing w with
  | nil => exact h n v hv
  | cons op ops ih => exact ih (valid_apply h op) hv

theorem valid_of_run {ops : List Operation} {n : Nat} {v : View}
    (hv : (initial.run ops).view? n = some v) : v.Valid (initial.run ops).store := by
  -- at the beginning there are no views
  refine valid_run ?_ ops n v hv
  intro n v hv
  cases hv

end Workspace

/-! ## Answers -/

/-- The last of some records at or before a point in time. -/
def nearestIn (records : List Record) (target : Timestamp) : Except StoreError Nat :=
  nearestIndex (fun i : Fin records.length => records[i].timestamp) target

/-- Probes at the same points in time find the same position. -/
theorem nearestIndex_congr {n m : Nat} {time : Fin n → Timestamp} {time' : Fin m → Timestamp}
    (hn : n = m) (htime : ∀ i, time i = time' (i.cast hn)) (target : Timestamp) :
    nearestIndex time target = nearestIndex time' target := by
  subst hn
  exact congrArg (nearestIndex · target) (funext htime)

namespace View

variable {v : View} {s : Store}

theorem Valid.rowCount (h : v.Valid s) :
    v.rowCount s = (shown v.filter s.records).length := by
  rw [View.rowCount, h.rows_current, size_selectRows]

theorem Valid.row_of_lt (h : v.Valid s) {row : Nat} {x : Row}
    (hx : (selectRows v.filter s.records)[row]? = some x) : v.row s row = .ok x := by
  rw [View.row, h.rows_current, hx]

theorem Valid.row_of_le (h : v.Valid s) {row : Nat}
    (hle : (shown v.filter s.records).length ≤ row) :
    v.row s row = .error (.outOfRange row (shown v.filter s.records).length) := by
  have hnone : (selectRows v.filter s.records)[row]? = none := by
    rw [Array.getElem?_eq_none_iff, size_selectRows]
    exact hle
  rw [View.row, h.rows_current, hnone, h.rowCount]

/-- The row of a number is the position of a fresh scan with the record there. -/
theorem Valid.row (h : v.Valid s) {row index : Nat}
    (hindex : (shownAt v.filter s.records)[row]? = some index) :
    ∃ r, s.records[index]? = some r ∧ v.row s row = .ok ⟨index, r⟩ := by
  rw [← index_selectRows, List.getElem?_map] at hindex
  obtain ⟨x, hx, rfl⟩ := Option.map_eq_some_iff.1 hindex
  refine ⟨x.record, ?_, h.row_of_lt ?_⟩
  · exact getElem?_of_mem_selectRows _ _ (List.mem_of_getElem? hx)
  · rw [← Array.getElem?_toList]
    exact hx

theorem Valid.nearestRow (h : v.Valid s) (target : Timestamp) :
    v.nearestRow s target = nearestIn (shown v.filter s.records) target := by
  have hrecords : (v.current s).rows.toList.map Row.record = shown v.filter s.records := by
    rw [h.rows_current, record_selectRows]
  have hsize : (v.current s).rows.size = (shown v.filter s.records).length := by
    rw [← hrecords, List.length_map, Array.length_toList]
  refine nearestIndex_congr hsize ?_ target
  intro i
  simp [← hrecords]

end View

namespace Workspace

/-- What a view answers to a question, with its rows brought up to date. -/
def ask {α : Type} (w : Workspace) (n : Nat) (f : View → Store → α) : Option α :=
  (w.readView n f).map Prod.fst

/-- View `n`, asked through the workspace, shows the records that a fresh scan of the store finds
for its filter, in the form of its template. -/
structure Shows (w : Workspace) (n : Nat) (v : View) : Prop where
  /-- There are as many rows as records that pass. -/
  rowCount : w.ask n View.rowCount = some (shown v.filter w.store.records).length
  /-- The positions are those of the records that pass, -/
  mem_iff : ∀ index, index ∈ shownAt v.filter w.store.records ↔
    ∃ r, w.store.records[index]? = some r ∧ passes v.filter r = true
  /-- they ascend, -/
  ascending : (shownAt v.filter w.store.records).Pairwise (· < ·)
  /-- they lie inside the store, -/
  inside : ∀ index ∈ shownAt v.filter w.store.records, index < w.store.records.size
  /-- and the records there are the ones that pass, in order. -/
  records : (shownAt v.filter w.store.records).map (w.store.records[·]?)
    = (shown v.filter w.store.records).map some
  /-- A row stands for a position, for the record there, and for its text. -/
  row : ∀ (row index : Nat), (shownAt v.filter w.store.records)[row]? = some index →
    ∃ r, w.store.records[index]? = some r ∧
      w.ask n (·.rowAt · row) = some (.ok index) ∧
      w.ask n (·.record · row) = some (.ok r) ∧
      w.ask n (·.data · row) = some (.ok (v.template.render r))
  /-- A point in time is looked for among the times of the records that pass. -/
  nearestRow : ∀ target, w.ask n (·.nearestRow · target)
    = some (nearestIn (shown v.filter w.store.records) target)
  /-- Every other row is out of range, for selections too. -/
  outOfRange : ∀ row, (shown v.filter w.store.records).length ≤ row →
    let e := StoreError.outOfRange row (shown v.filter w.store.records).length
    w.ask n (·.rowAt · row) = some (.error e) ∧
      w.ask n (·.record · row) = some (.error e) ∧
      w.ask n (·.data · row) = some (.error e) ∧
      (w.selectRow n row).map Prod.fst = some (.error e)
  /-- Rows as new as the store are not stale. -/
  notStale : v.rowsGeneration = some w.store.generation →
    v.rows.toList.map Row.index = shownAt v.filter w.store.records

variable {w : Workspace} {n : Nat} {v : View}

theorem ask_eq {α : Type} (hv : w.view? n = some v) (f : View → Store → α) :
    w.ask n f = some (f (v.current w.store) w.store) := by
  rw [ask, readView, hv]
  rfl

theorem selectRow_of_error {row : Nat} {e : StoreError} (hv : w.view? n = some v)
    (he : (v.current w.store).record w.store row = .error e) :
    (w.selectRow n row).map Prod.fst = some (.error e) := by
  have hselect : ∀ hub, (v.current w.store).select w.store hub row = .error e := by
    intro hub
    rw [View.select, he]
  simp only [selectRow, hv, Option.bind_eq_bind, Option.bind_some]
  rw [show (w.setView n (v.current w.store)).store = w.store from rfl, hselect]
  rfl

theorem shows_of_valid (hv : w.view? n = some v) (h : v.Valid w.store) : w.Shows n v := by
  -- every question is put to the view with its rows brought up to date
  have hcurrent := h.current
  have hfilter := View.filter_current v w.store
  have htemplate := View.template_current v w.store
  constructor
  case rowCount => rw [ask_eq hv, hcurrent.rowCount, hfilter]
  case mem_iff => exact mem_shownAt v.filter w.store.records
  case ascending => exact pairwise_shownAt v.filter w.store.records
  case inside =>
    intro index hindex
    obtain ⟨r, hr, -⟩ := (mem_shownAt _ _ index).1 hindex
    exact (Array.getElem?_eq_some_iff.1 hr).1
  case records => exact map_shownAt v.filter w.store.records
  case row =>
    intro row index hindex
    rw [← hfilter] at hindex
    obtain ⟨r, hr, hrow⟩ := hcurrent.row hindex
    refine ⟨r, hr, ?_, ?_, ?_⟩
    · rw [ask_eq hv, View.rowAt, hrow]
      rfl
    · rw [ask_eq hv, View.record, hrow]
      rfl
    · rw [ask_eq hv, View.data, View.record, hrow, htemplate]
      rfl
  case nearestRow =>
    intro target
    rw [ask_eq hv, hcurrent.nearestRow, hfilter]
  case outOfRange =>
    intro row hle
    have hrow : (v.current w.store).row w.store row
        = .error (.outOfRange row (shown v.filter w.store.records).length) := by
      rw [← hfilter] at hle ⊢
      exact hcurrent.row_of_le hle
    have hrecord : (v.current w.store).record w.store row
        = .error (.outOfRange row (shown v.filter w.store.records).length) := by
      rw [View.record, hrow]
      rfl
    refine ⟨?_, ?_, ?_, selectRow_of_error hv hrecord⟩
    · rw [ask_eq hv, View.rowAt, hrow]
      rfl
    · rw [ask_eq hv, hrecord]
    · rw [ask_eq hv, View.data, hrecord]
      rfl
  case notStale =>
    intro hg
    rw [(h w.store.generation hg).2 rfl, index_selectRows]

/-- **In every run every view shows what a fresh scan of the store finds.** -/
theorem shows_of_run (ops : List Operation) (n : Nat) (v : View)
    (hv : (initial.run ops).view? n = some v) : (initial.run ops).Shows n v :=
  shows_of_valid hv (valid_of_run hv)

/-- A view that was read and filtered before the store went on. -/
theorem shows_behind_store :
    let w := initial.run [.enqueue ⟨"a", "m", 1, "x"⟩, .openView, .drain, .view 0 .read,
      .view 0 (.setFilter (some ⟨"timestamp eq 1", .test (.eq "timestamp" (.integer 1))⟩)),
      .enqueue ⟨"b", "m", 2, "y"⟩, .drain]
    ∃ v, w.view? 0 = some v ∧ w.Shows 0 v :=
  ⟨_, rfl, shows_of_run _ 0 _ rfl⟩

end Workspace

end TraceViews
