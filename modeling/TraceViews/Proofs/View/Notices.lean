import TraceViews.Proofs.View.Rows

/-!
# The notices of a view

Between two sync points a view says nothing of the changes of its store. The next refresh reports
what they have made of the rows (`refreshNotices`): what was there before a clear is removed, and
what has come since is inserted behind the rest. A view that has missed changes is reset.
-/

namespace TraceViews

/-! ## What a refresh has to report -/

/-- Whether a change removes every record. -/
def Change.isClear : Change → Bool
  | .inserted _ => false
  | .cleared _ => true

/-- The rows that were reported are gone if one of the changes is a clear. -/
def removal (was : Nat) (changes : List Change) : List Notice :=
  if changes.any Change.isClear && decide (0 < was) then [.removed ⟨0, was⟩] else []

/-- What is reported of changes after which there are `now` rows, where `was` have been reported
before. Of too many changes only the latest ones can be told. -/
def refreshNotices (was now : Nat) (changes : List Change) : List Notice :=
  if changes.length ≤ changeCapacity then
    let start := if changes.any Change.isClear then 0 else was
    removal was changes ++ if start < now then [.inserted ⟨start, now⟩] else []
  else
    removal was (changes.drop (changes.length - changeCapacity)) ++ [.reset]

/-! ## Deliveries -/

/-- A receiver that is behind by some values misses those that are no longer kept, and is given
the others. -/
theorem Broadcast.deliver_behind {capacity : Nat} {α : Type} {b : Broadcast capacity α}
    {earlier news : List α} (h : b.sent.toList = earlier ++ news) :
    (b.deliver earlier.length).missed = news.length - capacity ∧
      (b.deliver earlier.length).values = news.drop (news.length - capacity) := by
  have hsize : b.sent.size = earlier.length + news.length := by
    rw [← Array.length_toList, h, List.length_append]
  constructor
  · simp only [deliver, oldest, hsize]
    omega
  · have hstart : max earlier.length (b.sent.size - capacity)
        = earlier.length + (news.length - capacity) := by omega
    rw [deliver, oldest, hstart, Array.toList_extract, h, List.extract_eq_take_drop,
      List.drop_append, List.drop_of_length_le (by omega), List.nil_append, Nat.add_sub_cancel_left]
    refine List.take_of_length_le ?_
    rw [List.length_drop]
    omega

namespace View

variable {v v' : View} {s : Store}

/-! ## Parts of a refresh -/

theorem foldl_observe (v : View) (changes : List Change) :
    (changes.foldl observe v).filter = v.filter ∧
      (changes.foldl observe v).cursor = v.cursor ∧
      (changes.foldl observe v).reported
        = (if changes.any Change.isClear then 0 else v.reported) ∧
      (changes.foldl observe v).notices.toList
        = v.notices.toList ++ removal v.reported changes := by
  induction changes generalizing v with
  | nil => exact ⟨rfl, rfl, rfl, (List.append_nil _).symm⟩
  | cons change changes ih =>
    obtain ⟨hfilter, hcursor, hreported, hnotices⟩ := ih (v.observe change)
    rw [List.foldl_cons, hfilter, hcursor, hreported, hnotices]
    cases change with
    | inserted span => exact ⟨rfl, rfl, rfl, rfl⟩
    | cleared removed =>
      -- after a clear nothing is left for the later ones to remove
      by_cases hpos : 0 < v.reported
      · simp [observe, hpos, removal, Change.isClear, notify]
      · simp [observe, hpos, removal, Change.isClear]

/-- What a report says where nothing but insertions can have happened. -/
theorem notices_report (h : v.Valid s) (hle : v.reported ≤ (shown v.filter s.records).length) :
    (v.report s).notices.toList = v.notices.toList ++
      if v.reported < (shown v.filter s.records).length
      then [.inserted ⟨v.reported, (shown v.filter s.records).length⟩] else [] := by
  have hsize : (v.current s).rows.size = (shown v.filter s.records).length := by
    rw [h.rows_current, size_selectRows]
  simp only [report, hsize, reported_current]
  by_cases hlt : v.reported < (shown v.filter s.records).length
  · rw [if_pos hlt, if_pos hlt]
    simp [notify, notices_current]
  · rw [if_neg hlt, if_neg (Nat.not_lt.2 hle), if_neg hlt]
    simp [notices_current]

theorem notices_reset (v : View) (s : Store) :
    (v.reset s).notices.toList = v.notices.toList ++ [.reset] := by
  simp [reset, notify, notices_current]

/-! ## Refreshing -/

/-- **What a refresh appends**, for a view that is behind by some changes. If it has heard of all of
them, and of no clear, then no row that it reported may be gone. -/
theorem notices_refresh (h : v.Valid s) {earlier news : List Change}
    (hsent : s.changes.sent.toList = earlier ++ news) (hcursor : v.cursor = earlier.length)
    (hle : news.any Change.isClear = false →
      v.reported ≤ (shown v.filter s.records).length) :
    (v.refresh s).notices.toList = v.notices.toList
      ++ refreshNotices v.reported (shown v.filter s.records).length news := by
  obtain ⟨hmissed, hvalues⟩ := Broadcast.deliver_behind hsent
  have hvalid : View.Valid { v with cursor := (s.changes.deliver v.cursor).next } s :=
    h.of_eq rfl rfl rfl
  have hobserved := hvalid.foldl_observe (s.changes.deliver v.cursor).values
  obtain ⟨hfilter, -, hreported, hnotices⟩ := foldl_observe
    { v with cursor := (s.changes.deliver v.cursor).next } (s.changes.deliver v.cursor).values
  rw [refresh]
  simp only [hcursor, hmissed, hvalues] at hobserved hfilter hreported hnotices ⊢
  rw [refreshNotices]
  by_cases hfew : news.length ≤ changeCapacity
  -- nothing is missed, and all changes are heard of
  · rw [if_neg (by omega), if_pos hfew]
    rw [Nat.sub_eq_zero_of_le hfew, List.drop_zero] at hobserved hfilter hreported hnotices ⊢
    rw [notices_report hobserved, hnotices, hreported, hfilter, List.append_assoc]
    rw [hreported, hfilter]
    cases hclear : news.any Change.isClear with
    | true => exact Nat.zero_le _
    | false => exact hle hclear
  -- changes are missed, but a clear among those that are kept still counts
  · rw [if_pos (by omega), if_neg hfew, notices_reset, hnotices, List.append_assoc]

/-- A view that has just taken stock of its rows. -/
structure InSync (v : View) (s : Store) : Prop where
  cursor : v.cursor = s.changes.sent.size
  reported : v.reported = v.rows.size
  fresh : v.rowsGeneration = some s.generation

theorem InSync.reported_eq (h : v.InSync s) (hvalid : v.Valid s) :
    v.reported = (shownAt v.filter s.records).length := by
  obtain ⟨-, hrows⟩ := hvalid s.generation h.fresh
  rw [h.reported, hrows rfl, size_selectRows, length_shownAt]

theorem inSync_reset (v : View) (s : Store) : (v.reset s).InSync s := by
  refine ⟨?_, rfl, rowsGeneration_current _ s⟩
  exact cursor_current { v with cursor := s.changes.subscribe } s

theorem inSync_ofStore (s : Store) : (View.ofStore s).InSync s :=
  ⟨cursor_current _ s, rfl, rowsGeneration_current _ s⟩

theorem inSync_report (h : v.cursor = s.changes.sent.size) : (v.report s).InSync s := by
  have hcursor := (cursor_current v s).trans h
  have hfresh := rowsGeneration_current v s
  rw [report]
  split
  · exact ⟨hcursor, rfl, hfresh⟩
  · split
    · exact ⟨hcursor, rfl, hfresh⟩
    · exact ⟨hcursor, rfl, hfresh⟩

/-- A sync point deserves its name. -/
theorem Syncs.inSync (h : v.Syncs s v') : v'.InSync s := by
  cases h with
  | install filter => exact inSync_reset _ s
  | refresh =>
    obtain ⟨-, hcursor, -, -⟩ := foldl_observe
      { v with cursor := (s.changes.deliver v.cursor).next } (s.changes.deliver v.cursor).values
    rw [View.refresh]
    split
    · exact inSync_reset _ s
    · exact inSync_report hcursor

end View

/-! ## Stretches without a sync point -/

/-- Appended records come behind the rows that were there. -/
theorem shownAt_of_appended {records records' : Array Record} (filter : Option RecordFilter)
    (h : records.toList <+: records'.toList) :
    shownAt filter records <+: shownAt filter records' := by
  obtain ⟨more, hmore⟩ := h
  have hsize : records'.size = records.size + more.length := by
    rw [← Array.length_toList, ← hmore, List.length_append, Array.length_toList]
  have hsame : (List.range records.size).filter (fun i => records'[i]?.any (passes filter))
      = shownAt filter records := by
    refine List.filter_congr ?_
    intro i hi
    rw [← Array.getElem?_toList, ← hmore, List.getElem?_append_left, Array.getElem?_toList]
    exact List.mem_range.1 hi
  rw [shownAt.eq_def filter records', hsize, List.range_add, List.filter_append, hsame]
  exact List.prefix_append _ _

namespace Store.Step

variable {s s' : Store} {change : Option Change}

/-- Every change is announced. -/
theorem sent (h : s.Step change s') :
    s'.changes.sent.toList = s.changes.sent.toList ++ change.toList := by
  cases h with
  | stay => exact (List.append_nil _).symm
  | enqueue r => exact (List.append_nil _).symm
  | drain h =>
    rw [drain_of_queue h]
    exact Array.toList_push
  | clear => exact Array.toList_push

/-- Only a clear takes records away. -/
theorem records_appended (h : s.Step change s') (hclear : change.any Change.isClear = false) :
    s.records.toList <+: s'.records.toList := by
  cases h with
  | stay => exact List.prefix_rfl
  | enqueue r => exact List.prefix_rfl
  | drain h =>
    rw [drain_of_queue h]
    show s.records.toList <+: (s.records ++ s.queue).toList
    rw [Array.toList_append]
    exact List.prefix_append _ _
  | clear => cases hclear

end Store.Step

namespace Workspace

variable {w : Workspace} {n : Nat} {v : View}

theorem sent_run (w : Workspace) (ops : List Operation) :
    (w.run ops).store.changes.sent.toList
      = w.store.changes.sent.toList ++ w.changes ops := by
  induction ops generalizing w with
  | nil => exact (List.append_nil _).symm
  | cons op ops ih => rw [run_cons, ih, (step_apply w op).sent, changes, List.append_assoc]

theorem records_run {ops : List Operation} (h : (w.changes ops).any Change.isClear = false) :
    w.store.records.toList <+: (w.run ops).store.records.toList := by
  induction ops generalizing w with
  | nil => exact List.prefix_rfl
  | cons op ops ih =>
    rw [changes, List.any_append, Bool.or_eq_false_iff] at h
    obtain ⟨hop, hops⟩ := h
    refine ((step_apply w op).records_appended ?_).trans (ih hops)
    cases hc : w.change? op with
    | none => rfl
    | some change =>
      rw [hc] at hop
      simpa using hop

/-- In the whole stretch view `n` does not take stock of its rows. -/
def Quiet (n : Nat) : Workspace → List Operation → Prop
  | _, [] => True
  | w, op :: ops => op.syncs w n = false ∧ Quiet n (w.apply op) ops

/-- A quiet stretch leaves a view what it has reported, and up to where. -/
theorem keeps_run {ops : List Operation} (hquiet : Quiet n w ops)
    (hv : (w.run ops).view? n = some v) :
    ∃ u, w.view? n = some u ∧ v.filter = u.filter ∧ v.reported = u.reported ∧
      v.cursor = u.cursor := by
  induction ops generalizing w with
  | nil => exact ⟨v, hv, rfl, rfl, rfl⟩
  | cons op ops ih =>
    obtain ⟨hop, hops⟩ := hquiet
    obtain ⟨u, hu, hfilter, hreported, hcursor⟩ := ih hops hv
    rcases view?_apply hu with ⟨hsyncs, -⟩ | ⟨-, u₀, hu₀, hkeeps⟩
    · rw [hop] at hsyncs
      cases hsyncs
    · exact ⟨u₀, hu₀, hfilter.trans hkeeps.filter, hreported.trans hkeeps.reported,
        hcursor.trans hkeeps.cursor⟩

/-- The operations of a run from `w` are cut at the latest one in which view `n` takes stock of its
rows. -/
structure LatestSync (w : Workspace) (n : Nat) (ops before : List Operation) (sync : Operation)
    (between : List Operation) : Prop where
  split : ops = before ++ sync :: between
  syncs : sync.syncs (w.run before) n = true
  quiet : Quiet n ((w.run before).apply sync) between

/-- A view has taken stock of its rows since it was opened. -/
theorem exists_latestSync {ops : List Operation} (hv : (w.run ops).view? n = some v) :
    ((w.view? n).isSome ∧ Quiet n w ops) ∨
      ∃ before sync between, LatestSync w n ops before sync between := by
  -- from the front: either the rest has a sync point, or the first operation may be the latest
  induction ops generalizing w with
  | nil =>
    rw [run_nil] at hv
    exact .inl ⟨hv ▸ rfl, trivial⟩
  | cons op ops ih =>
    rcases ih hv with ⟨hsome, hquiet⟩ | ⟨before, sync, between, hsplit, hsyncs, hquiet⟩
    · obtain ⟨u, hu⟩ := Option.isSome_iff_exists.1 hsome
      rcases view?_apply hu with ⟨hsyncs, -⟩ | ⟨hop, u₀, hu₀, -⟩
      · exact .inr ⟨[], op, ops, rfl, hsyncs, hquiet⟩
      · exact .inl ⟨hu₀ ▸ rfl, hop, hquiet⟩
    · refine .inr ⟨op :: before, sync, between, ?_, hsyncs, hquiet⟩
      rw [hsplit, List.cons_append]

theorem view?_refresh (hv : w.view? n = some v) :
    (w.apply (.view n .refresh)).view? n = some (v.refresh w.store) := by
  have hn : w.views[n]? = some (some v) := Option.join_eq_some_iff.1 hv
  obtain ⟨hlt, -⟩ := Array.getElem?_eq_some_iff.1 hn
  simp only [apply, applyToView, changeView, hv]
  exact (view?_eq_of_views (x := some (v.refresh w.store)) rfl n).trans
    ((if_pos rfl).trans (if_pos hlt))

section LatestSync

variable {ops before between : List Operation} {sync : Operation}

theorem LatestSync.run_eq (h : LatestSync w n ops before sync between) :
    w.run ops = ((w.run before).apply sync).run between := by
  rw [h.split, run_append]
  rfl

/-- Since the sync point a view has kept its filter, and its account says what the rows were
there. -/
theorem LatestSync.exists_view (h : LatestSync initial n ops before sync between)
    (hv : (initial.run ops).view? n = some v) :
    ∃ v₀, ((initial.run before).apply sync).view? n = some v₀ ∧ v.filter = v₀.filter ∧
      v.cursor = ((initial.run before).apply sync).store.changes.sent.size ∧
      v.reported
        = (shownAt v₀.filter ((initial.run before).apply sync).store.records).length := by
  rw [h.run_eq] at hv
  obtain ⟨v₀, hv₀, hfilter, hreported, hcursor⟩ := keeps_run h.quiet hv
  -- the operation is a sync point, so it left all rows reported
  have hsync : v₀.InSync ((initial.run before).apply sync).store := by
    rcases view?_apply hv₀ with ⟨-, hstore, rfl | ⟨u, -, hsyncs⟩⟩ | ⟨hsyncs, -⟩
    · rw [hstore]
      exact View.inSync_ofStore _
    · rw [hstore]
      exact hsyncs.inSync
    · rw [h.syncs] at hsyncs
      cases hsyncs
  have hvalid : v₀.Valid ((initial.run before).apply sync).store := by
    rw [← run_concat] at hv₀ ⊢
    exact valid_of_run hv₀
  exact ⟨v₀, hv₀, hfilter, hcursor.trans hsync.cursor, hreported.trans (hsync.reported_eq hvalid)⟩

end LatestSync

/-- **The notices replay to the rows.** In every run a view that is there has taken stock of its
rows at some latest operation, and what its next refresh appends is what the changes of the store
since then have made of the rows from there. Without a clear those rows are still the first ones. -/
theorem notices_of_refresh (ops : List Operation) (n : Nat) (v : View)
    (hv : (initial.run ops).view? n = some v) :
    (∃ before sync between, LatestSync initial n ops before sync between) ∧
      ∀ before sync between, LatestSync initial n ops before sync between →
        let synced := (initial.run before).apply sync
        let w := initial.run ops
        ∃ v₀ v', synced.view? n = some v₀ ∧ (w.apply (.view n .refresh)).view? n = some v' ∧
          let was := shownAt v₀.filter synced.store.records
          let now := shownAt v.filter w.store.records
          let changes := synced.changes between
          v'.notices.toList
              = v.notices.toList ++ refreshNotices was.length now.length changes ∧
            (changes.any Change.isClear = false → was <+: now) := by
  refine ⟨(exists_latestSync hv).resolve_left ?_, ?_⟩
  · rintro ⟨hsome, -⟩
    cases hsome
  · intro before sync between hlatest synced w
    obtain ⟨v₀, hv₀, hfilter, hcursor, hreported⟩ := hlatest.exists_view hv
    have hkept : (synced.changes between).any Change.isClear = false →
        shownAt v₀.filter synced.store.records <+: shownAt v.filter w.store.records := by
      intro hclear
      rw [hfilter, show w = _ from hlatest.run_eq]
      exact shownAt_of_appended v₀.filter (records_run hclear)
    have hsent : w.store.changes.sent.toList
        = synced.store.changes.sent.toList ++ synced.changes between := by
      rw [show w = _ from hlatest.run_eq, sent_run]
    refine ⟨v₀, v.refresh w.store, hv₀, view?_refresh hv, ?_, hkept⟩
    -- as long as nothing was cleared there are at least as many rows as have been reported
    have hnotices := View.notices_refresh (valid_of_run hv) hsent hcursor fun hclear => by
      rw [hreported, ← length_shownAt]
      exact (hkept hclear).length_le
    rw [hreported, ← length_shownAt] at hnotices
    exact hnotices

/-- A record that has been reported is cleared, and another one comes. -/
theorem notices_behind_clear :
    let w := initial.run [.openView, .enqueue ⟨"a", "m", 1, "x"⟩, .drain, .view 0 .refresh,
      .clear, .enqueue ⟨"b", "m", 2, "y"⟩, .view 0 .read, .drain]
    ∃ v v', w.view? 0 = some v ∧ (w.apply (.view 0 .refresh)).view? 0 = some v' ∧
      v'.notices.toList = v.notices.toList ++ [.removed ⟨0, 1⟩, .inserted ⟨0, 1⟩] := by
  intro w
  obtain ⟨v₀, v', hv₀, hv', hnotices, -⟩ := (notices_of_refresh _ 0 _ rfl).2
    [.openView, .enqueue ⟨"a", "m", 1, "x"⟩, .drain] (.view 0 .refresh)
    [.clear, .enqueue ⟨"b", "m", 2, "y"⟩, .view 0 .read, .drain]
    ⟨rfl, rfl, rfl, rfl, rfl, rfl, trivial⟩
  cases Option.some.inj hv₀
  exact ⟨_, v', rfl, hv', hnotices⟩

end Workspace

end TraceViews
