import TraceViews.Proofs.Store.Bisection
import TraceViews.Proofs.View.Rows
import TraceViews.Proofs.Workspace.Records

/-!
# The row nearest to a point in time

The rows of a view of records in the order of time are in that order themselves, so bisection finds
the last one that is not after the point in time asked for (`nearest_of_inOrder`).
-/

namespace TraceViews

/-- The record at the position passes the filter, and is at or before the target. -/
def ShownUpTo (filter : Option RecordFilter) (records : Array Record) (target : Timestamp)
    (index : Nat) : Prop :=
  ∃ r, records[index]? = some r ∧ passes filter r = true ∧ r.timestamp ≤ target

/-- The point in time of a record of a store. -/
def Store.timestampAt (s : Store) : Fin s.records.size → Timestamp
  | ⟨index, _⟩ => s.records[index].timestamp

section Order

variable {filter : Option RecordFilter} {records : Array Record} {target : Timestamp}

theorem inOrder_of_pairwise {l : List Record} (h : l.Pairwise Record.NotAfter) :
    InOrder fun i : Fin l.length => (l.get i).timestamp := by
  intro i j hij
  rcases Nat.lt_or_eq_of_le hij with hlt | heq
  · exact List.pairwise_iff_getElem.1 h i j i.isLt j.isLt hlt
  · rw [Fin.ext heq]
    exact Int64.le_refl _

/-- What a filter leaves stays in order. -/
theorem inOrder_shown (h : records.toList.Pairwise Record.NotAfter) :
    InOrder fun i : Fin (shown filter records).length => (shown filter records)[i].timestamp :=
  inOrder_of_pairwise (h.filter _)

/-- The position of a row, and the record that it shows. -/
theorem exists_getElem?_shown {row index : Nat}
    (h : (shownAt filter records)[row]? = some index) :
    ∃ r, records[index]? = some r ∧ (shown filter records)[row]? = some r := by
  have hmap := congrArg (·[row]?) (map_shownAt filter records)
  simp only [List.getElem?_map, h, Option.map_some] at hmap
  obtain ⟨r, hr, hsome⟩ := Option.map_eq_some_iff.1 hmap.symm
  exact ⟨r, hsome.symm, hr⟩

/-- Further down are later records of the store. -/
theorem shownAt_le_of_le {row row' index index' : Nat}
    (h : (shownAt filter records)[row]? = some index)
    (h' : (shownAt filter records)[row']? = some index') (hle : row ≤ row') : index ≤ index' := by
  obtain ⟨hlt, rfl⟩ := List.getElem?_eq_some_iff.1 h
  obtain ⟨hlt', rfl⟩ := List.getElem?_eq_some_iff.1 h'
  rcases Nat.lt_or_eq_of_le hle with hrow | rfl
  · exact Nat.le_of_lt
      (List.pairwise_iff_getElem.1 (pairwise_shownAt filter records) row row' hlt hlt' hrow)
  · exact Nat.le_refl _

/-- **The nearest row shows the last record that it may**: the one that passes and is not after the
target, or the first one that passes. -/
theorem exists_last_of_isNearest {row : Nat}
    (h : IsNearest (fun i : Fin (shown filter records).length => (shown filter records)[i].timestamp)
      target row) :
    (∀ index, ShownUpTo filter records target index → ∃ last,
        (shownAt filter records)[row]? = some last ∧ ShownUpTo filter records target last ∧
          index ≤ last) ∧
      ((∀ index, ¬ ShownUpTo filter records target index) → row = 0) := by
  -- a row stands for a record up to the target if its time says so
  have hupTo : ∀ (i : Fin (shown filter records).length) (index : Nat),
      (shownAt filter records)[i.val]? = some index →
        (shown filter records)[i].timestamp ≤ target → ShownUpTo filter records target index := by
    intro i index hindex htime
    obtain ⟨r, hr, hshown⟩ := exists_getElem?_shown hindex
    obtain ⟨r', hr', hpass⟩ := (mem_shownAt filter records index).1 (List.mem_of_getElem? hindex)
    cases hr.symm.trans hr'
    obtain ⟨hlt, hget⟩ := List.getElem?_eq_some_iff.1 hshown
    exact ⟨r, hr, hpass, hget ▸ htime⟩
  have hrow : ∀ i : Fin (shown filter records).length,
      ∃ index, (shownAt filter records)[i.val]? = some index := by
    intro i
    have hlt : i.val < (shownAt filter records).length := by
      rw [length_shownAt]
      exact i.isLt
    exact ⟨_, List.getElem?_eq_getElem hlt⟩
  refine ⟨?_, ?_⟩
  · rintro index ⟨r, hr, hpass, htime⟩
    -- the record has a row, which is not behind the nearest one
    obtain ⟨i, hi⟩ := List.mem_iff_getElem?.1
      ((mem_shownAt filter records index).2 ⟨r, hr, hpass⟩)
    obtain ⟨r', hr', hshown⟩ := exists_getElem?_shown hi
    cases hr.symm.trans hr'
    obtain ⟨hlt, hget⟩ := List.getElem?_eq_some_iff.1 hshown
    obtain ⟨hlast, hle⟩ := h.last ⟨i, hlt⟩ (by simpa [hget] using htime)
    obtain ⟨last, hrow⟩ := hrow ⟨row, h.inside⟩
    exact ⟨last, hrow, hupTo ⟨row, h.inside⟩ last hrow hlast, shownAt_le_of_le hi hrow hle⟩
  · intro hnone
    refine h.first ?_
    intro i
    rw [← Int64.not_le]
    intro htime
    obtain ⟨index, hindex⟩ := hrow i
    exact hnone index (hupTo i index hindex htime)

end Order

namespace Workspace

/-- View `n`, asked for the row nearest to a point in time, has no answer if it has no rows, and
otherwise gives the row of the last visible record that passes and is not after that time, or the
first row if there is none. -/
structure FindsNearest (w : Workspace) (n : Nat) (v : View) (target : Timestamp) : Prop where
  noRows : shownAt v.filter w.store.records = [] →
    w.ask n (·.nearestRow · target) = some (.error .empty)
  rows : shownAt v.filter w.store.records ≠ [] →
    ∃ row, w.ask n (·.nearestRow · target) = some (.ok row) ∧
      (∀ index, ShownUpTo v.filter w.store.records target index → ∃ last,
        w.ask n (·.rowAt · row) = some (.ok last) ∧
          ShownUpTo v.filter w.store.records target last ∧ index ≤ last) ∧
      ((∀ index, ¬ ShownUpTo v.filter w.store.records target index) → row = 0)

variable {w : Workspace} {n : Nat} {v : View}

theorem findsNearest_of_valid (hv : w.view? n = some v) (h : v.Valid w.store)
    (horder : w.store.records.toList.Pairwise Record.NotAfter) (target : Timestamp) :
    w.FindsNearest n v target := by
  have hshows := shows_of_valid hv h
  have hlength := length_shownAt v.filter w.store.records
  constructor
  case noRows =>
    intro hnil
    rw [hnil] at hlength
    rw [hshows.nearestRow, nearestIn, nearestIndex_eq_error_iff.2 ⟨rfl, hlength.symm⟩]
  case rows =>
    intro hne
    have hpos : 0 < (shown v.filter w.store.records).length := by
      rw [← hlength]
      exact List.length_pos_iff.2 hne
    obtain ⟨row, hrow, hnearest⟩ :=
      exists_nearestIndex_of_inOrder target (inOrder_shown horder) hpos
    obtain ⟨hlast, hfirst⟩ := exists_last_of_isNearest hnearest
    refine ⟨row, ?_, ?_, hfirst⟩
    · rw [hshows.nearestRow, nearestIn, hrow]
    · intro index hindex
      obtain ⟨last, hat, hupTo⟩ := hlast index hindex
      obtain ⟨-, -, hask, -⟩ := hshows.row row last hat
      exact ⟨last, hask, hupTo⟩

/-- **In the order of time the nearest element is the last one that is not after the target**, or
the first one. There is no answer where there is no element, and nowhere else. So it is with points
in time, with the records of a store, and with the rows of a view, in every run. -/
theorem nearest_of_inOrder :
    (∀ {n : Nat} (time : Fin n → Timestamp) (target : Timestamp),
      (∀ e, nearestIndex time target = .error e ↔ e = .empty ∧ n = 0) ∧
      (InOrder time → 0 < n →
        ∃ index, nearestIndex time target = .ok index ∧ IsNearest time target index)) ∧
    (∀ (s : Store) (target : Timestamp),
      (∀ e, s.nearest target = .error e ↔ e = .empty ∧ s.records.size = 0) ∧
      (s.records.toList.Pairwise Record.NotAfter → 0 < s.records.size →
        ∃ index, s.nearest target = .ok index ∧
          IsNearest s.timestampAt target index)) ∧
    ∀ (ops : List Operation) (n : Nat) (v : View),
      let w := initial.run ops
      w.view? n = some v → w.store.records.toList.Pairwise Record.NotAfter →
        ∀ target, w.FindsNearest n v target := by
  refine ⟨?_, ?_, ?_⟩
  · intro n time target
    exact ⟨fun e => nearestIndex_eq_error_iff, fun h => exists_nearestIndex_of_inOrder target h⟩
  · intro s target
    exact ⟨fun e => nearestIndex_eq_error_iff,
      fun h => exists_nearestIndex_of_inOrder target (inOrder_of_pairwise h)⟩
  · intro ops n v w hv horder target
    exact findsNearest_of_valid hv (valid_of_run hv) horder target

/-- Of rows of the same time the last one is found, and before all of them the first one. -/
theorem nearest_among_simultaneous :
    let f : RecordFilter := ⟨"module eq \"net\"", .test (.eq "module" (.text "net"))⟩
    let w := initial.run [.openView, .enqueue ⟨"2", "net", 1, "a"⟩, .enqueue ⟨"3", "net", 4, "b"⟩,
      .enqueue ⟨"4", "disk", 4, "c"⟩, .enqueue ⟨"5", "net", 4, "d"⟩, .enqueue ⟨"2", "net", 7, "e"⟩,
      .drain, .view 0 (.setFilter (some f))]
    InOrder (fun i : Fin 3 => (#[1, 4, 4] : Array Timestamp)[i]) ∧
      (∃ index, nearestIndex (fun i : Fin 3 => (#[1, 4, 4] : Array Timestamp)[i]) 4 = .ok index ∧
        IsNearest (fun i : Fin 3 => (#[1, 4, 4] : Array Timestamp)[i]) 4 index) ∧
      w.store.records.toList.Pairwise Record.NotAfter ∧
      (∃ index, w.store.nearest 5 = .ok index ∧
        IsNearest w.store.timestampAt 5 index) ∧
      ∃ v, w.view? 0 = some v ∧ w.FindsNearest 0 v 5 ∧ w.FindsNearest 0 v 0 := by
  intro f w
  obtain ⟨hpoints, hstore, hviews⟩ := nearest_of_inOrder
  have htimes : InOrder (fun i : Fin 3 => (#[1, 4, 4] : Array Timestamp)[i]) := by
    unfold InOrder
    decide
  have horder : w.store.records.toList.Pairwise Record.NotAfter := by decide
  exact ⟨htimes, (hpoints _ 4).2 htimes (by decide), horder, (hstore w.store 5).2 horder (by decide),
    _, rfl, hviews _ 0 _ rfl horder 5, hviews _ 0 _ rfl horder 0⟩

end Workspace

end TraceViews
