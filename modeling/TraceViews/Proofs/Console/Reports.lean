import TraceViews.Proofs.Console.Inspection
import TraceViews.Proofs.Sync.Delivery

/-!
# What a console reports

A report goes through the notices of the views, one view after the other. Since the rows that the
notices speak of are there, what it prints can be read off the records that the views show
(`Console.report_eq`). Rows are printed by listings and reports alone, and selections that were
followed by reports alone (`Console.plain_of_handle`).
-/

namespace TraceViews

/-- A row is found under its number. -/
theorem View.Valid.record {v : View} {s : Store} (h : v.Valid s) {row : Nat} {r : Record}
    (hr : (shown v.filter s.records)[row]? = some r) : v.record s row = .ok r := by
  rw [← record_selectRows, List.getElem?_map, Array.getElem?_toList] at hr
  obtain ⟨x, hx, rfl⟩ := Option.map_eq_some_iff.1 hr
  rw [View.record, h.row_of_lt hx]
  rfl

namespace Console

/-! ## Kinds of lines -/

/-- Whether a line shows a row. -/
def Line.isRow : Line → Bool
  | .row .. => true
  | _ => false

/-- Whether a line shows the row that a view followed a selection to. -/
def Line.isSynced : Line → Bool
  | .synced .. => true
  | _ => false

/-- There are only notices and errors among the lines. -/
def Plain (lines : List Line) : Prop := ∀ l ∈ lines, l.isRow = false ∧ l.isSynced = false

theorem plain_notice (message : String) : Plain [.notice message] :=
  List.forall_mem_singleton.2 ⟨rfl, rfl⟩

theorem plain_error (message : String) : Plain [.error message] :=
  List.forall_mem_singleton.2 ⟨rfl, rfl⟩

theorem plain_map_notice (messages : List String) : Plain (messages.map .notice) := by
  intro l hl
  obtain ⟨message, -, rfl⟩ := List.mem_map.1 hl
  exact ⟨rfl, rfl⟩

theorem Plain.filter_isRow {lines : List Line} (h : Plain lines) : lines.filter Line.isRow = [] :=
  List.filter_eq_nil_iff.2 fun l hl => by simp [(h l hl).1]

/-! ## Lines for notices -/

/-- Records as lines for consecutive rows of view `i`. -/
def numbered (i : Nat) (template : Template) (start : Nat) (records : List Record) : List Line :=
  (records.zipIdx start).map fun (r, row) => .row i row r (template.render r)

/-- What is printed for a notice of view `i`, where `rows` are the records that the view shows. -/
def said (active following : Bool) (i : Nat) (template : Template) (rows : List Record) :
    Notice → List Line
  | .inserted span =>
    if active && following then
      numbered i template span.start ((rows.take span.stop).drop span.start)
    else []
  | .removed span =>
    if active then
      [.notice (aboutView i ("rows " ++ Text.showNat span.start ++ ".."
        ++ Text.showNat span.stop ++ " removed"))]
    else []
  | .reset => if active then [.notice (aboutView i (countRows rows.length))] else []
  | .scrollTo row => (rows[row]?.map fun r => Line.synced i row r).toList

variable {s : Store} {v : View} {hub : Hub} {i : Nat} {active following : Bool}

theorem rowLines_eq (h : v.Valid s) (i : Nat) {start stop : Nat}
    (hstop : stop ≤ (shown v.filter s.records).length) :
    rowLines s i v start stop = .ok (numbered i v.template start
      (((shown v.filter s.records).take stop).drop start)) := by
  generalize hrows : ((shown v.filter s.records).take stop).drop start = rows
  have hlength : stop - start = rows.length := by
    rw [← hrows, List.length_drop, List.length_take, Nat.min_eq_left hstop]
  rw [rowLines, hlength, ← List.zipIdx_map_snd, List.mapM_map]
  refine mapM_eq_ok_map ?_
  rintro ⟨r, row⟩ hx
  -- the numbered records are those that the rows show
  obtain ⟨hle, hr⟩ := List.mk_mem_zipIdx_iff_le_and_getElem?_sub.1 hx
  rw [← hrows, List.getElem?_drop, Nat.add_sub_cancel' hle, List.getElem?_take,
    Option.ite_none_right_eq_some] at hr
  have hrecord := h.record hr.2
  rw [Function.comp, hrecord, View.data_of_record hrecord]
  rfl

theorem noticeLines_eq (h : v.Valid s) {x : Notice}
    (hx : x.Within (shown v.filter s.records).length) (active following : Bool) (i : Nat) :
    noticeLines s active following i v x
      = .ok (said active following i v.template (shown v.filter s.records) x) := by
  cases x with
  | inserted span =>
    rw [noticeLines, said]
    split
    · exact rowLines_eq h i hx
    · rfl
  | removed span =>
    rw [noticeLines, said]
    split <;> rfl
  | reset =>
    rw [noticeLines, said, h.rowCount]
    split <;> rfl
  | scrollTo row =>
    have hr := List.getElem?_eq_getElem (show row < (shown v.filter s.records).length from hx)
    rw [noticeLines, said, h.record hr, hr]
    rfl

/-! ## Reports -/

theorem notices_follow (v : View) (s : Store) (hub : Hub) :
    (v.follow s hub).2.notices.toList
      = v.notices.toList ++ ((v.follow s hub).1.map Notice.scrollTo).toList := by
  rw [View.follow]
  split
  · simp
  · dsimp only
    split
    · simp
    · split <;> simp [View.notify, View.notices_current]

/-- A report of a view says what its notices are, and then where the view has followed to. -/
theorem reportView_eq (h : v.Reportable s i) (hub : Hub) (active following : Bool) :
    reportView s hub active following i v
      = .ok ((v.follow s hub).2.notices.toList.flatMap
          (said active following i v.template (shown v.filter s.records)),
        (v.follow s hub).2.takeNotices.2) := by
  obtain ⟨p, hp, -⟩ := h.participant
  obtain ⟨notices, hfollow, hwithin⟩ := h.steady.inSync.follow_spec hub hp
  have hcount := h.steady.valid.rowCount
  have hsteady : (v.follow s hub).2.takeNotices.2.Steady s :=
    (h.steady.keeps (.follow v hub)).keeps (.of_eq rfl rfl rfl rfl rfl)
  rw [List.flatMap_def]
  refine reportView_of_mapM hsteady.inSync (mapM_eq_ok_map ?_)
  intro x hx
  have hlines := noticeLines_eq hsteady.valid (x := x) ?_ active following i
  · rw [hlines, hfollow]
    rfl
  · rw [hfollow] at hx ⊢
    rcases hwithin x hx with hx | hx
    · have hx := h.notices x hx
      rw [← h.steady.inSync.rowCount_eq, hcount] at hx
      exact hx
    · rw [hcount] at hx
      exact hx

variable {n : Nat} {c : Console n}

/-- The view of a number. -/
def view (c : Console n) (i : Fin n) : View := c.views[i]

/-- The share of view `i` in a report. -/
def share (c : Console n) (i : Fin n) : List Line :=
  ((c.view i).follow c.store c.hub).2.notices.toList.flatMap
    (said (c.active = i) c.following i (c.view i).template
      (shown (c.view i).filter c.store.records))

/-- **What a report prints**, and what it leaves behind: the views have heard of all selections, and
have no notices left. -/
theorem report_eq (h : ∀ (i : Nat) (hi : i < n), c.views[i].Reportable c.store i) :
    c.report = .ok ((List.finRange n).flatMap c.share, { c with
      views := c.views.map fun v => (v.follow c.store c.hub).2.takeNotices.2 }) := by
  let reports : Vector (List Line × View) n :=
    .ofFn fun i => (c.share i, ((c.view i).follow c.store c.hub).2.takeNotices.2)
  have hreports : ∀ (i : Nat) (hi : i < n),
      reportView c.store c.hub (c.active = ⟨i, hi⟩) c.following i c.views[i] = .ok reports[i] := by
    intro i hi
    rw [Vector.getElem_ofFn]
    exact reportView_eq (h i hi) c.hub _ _
  rw [report_of_reportView hreports]
  congr 2
  · rw [Vector.toList_ofFn, List.finRange, List.flatMap_def, List.flatMap_def, List.map_ofFn,
      List.map_ofFn]
    rfl
  · congr 1
    refine Vector.ext ?_
    intro i hi
    simp [reports, view]

end Console

/-! ## Settled views -/

namespace View

variable {v v' : View} {s s' : Store} {hub : Hub} {i : Nat}

/-- A view that has heard of all selections has nowhere to follow to. -/
theorem Settled.follow_fst (h : v.Settled s hub i) (hparticipant : v'.participant = v.participant)
    (s' : Store) : (v'.follow s' hub).1 = none := by
  obtain ⟨p, hp, -, hcursor⟩ := h.participant
  have hlatest := Hub.latest_eq (p := p) (List.append_nil hub.selections.sent.toList).symm
    (by rw [hcursor, Array.length_toList])
  rw [follow, hparticipant, hp]
  dsimp only
  rw [hlatest]
  rfl

/-- What a settled view has to report of a change. -/
theorem Settled.notices_refresh (h : v.Settled s hub i) {change : Option Change}
    (hs : s.Step change s') :
    (v.refresh s').notices.toList = v.notices.toList ++ refreshNotices
      (shown v.filter s.records).length (shown v.filter s'.records).length change.toList := by
  have hreported : v.reported = (shown v.filter s.records).length := by
    rw [← h.steady.valid.rowCount, h.steady.inSync.rowCount_eq]
  rw [← hreported]
  refine View.notices_refresh (h.steady.valid.step hs) hs.sent ?_ ?_
  · rw [h.steady.inSync.cursor, Array.length_toList]
  · intro hclear
    have hkept : change.any Change.isClear = false := by
      cases change with
      | none => rfl
      | some change => simpa using hclear
    rw [hreported]
    exact ((hs.records_appended hkept).filter (passes v.filter)).length_le

end View

namespace Console

variable {n : Nat} {c : Console n} {change : Option Change} {store : Store}

/-- A console whose views have taken note of the store's changes, but have not reported them. -/
def noting (c : Console n) (store : Store) : Console n :=
  { c with store, views := c.views.map (·.refresh store) }

/-- The share of a view in the report of a change: the notices that it had, and those of the
change. -/
theorem share_noting (h : c.Settled) (hs : c.store.Step change store) (i : Fin n) :
    (c.noting store).share i
      = ((c.view i).notices.toList ++ refreshNotices
          (shown (c.view i).filter c.store.records).length
          (shown (c.view i).filter store.records).length change.toList).flatMap
        (said (c.active = i) c.following i (c.view i).template
          (shown (c.view i).filter store.records)) := by
  have hview : (c.noting store).view i = (c.view i).refresh store := Vector.getElem_map ..
  have hsettled : (c.view i).Settled c.store c.hub i := h i i.isLt
  have hfollow := hsettled.follow_fst
    (View.ignoresAccount_participant.refresh (c.view i) store) store
  have hnotices := notices_follow ((c.view i).refresh store) store c.hub
  rw [hfollow, hsettled.notices_refresh hs, Option.map_none, Option.toList_none,
    List.append_nil] at hnotices
  rw [share, hview, View.ignoresAccount_filter.refresh, View.ignoresAccount_template.refresh]
  exact congrArg (List.flatMap _) hnotices

theorem reportable_noting (h : c.Settled) (hs : c.store.Step change store) (i : Nat) (hi : i < n) :
    (c.noting store).views[i].Reportable store i := by
  have hview : (c.noting store).views[i] = c.views[i].refresh store := Vector.getElem_map ..
  rw [hview]
  exact (h i hi).refresh hs

/-- **What a change of the store makes of a settled console.** -/
theorem refresh_eq (h : c.Settled) (hs : c.store.Step change store) :
    refresh { c with store } = .ok ⟨(List.finRange n).flatMap (c.noting store).share, .goOn,
      { c.noting store with
        views := (c.noting store).views.map fun v => (v.follow store c.hub).2.takeNotices.2 }⟩ := by
  rw [refresh]
  show (c.noting store).report >>= _ = _
  rw [report_eq (reportable_noting h hs)]
  rfl

/-- **What a selection makes of a settled console.** -/
theorem select_eq (h : c.Settled) {row : Nat} {timestamp : Timestamp} {hub : Hub}
    (hselect : c.activeView.select c.store c.hub row = .ok (timestamp, hub)) :
    c.select row = .ok ⟨.notice (aboutView c.active ("selected row " ++ Text.showNat row ++ " at "
        ++ Text.showInt64 timestamp)) :: (List.finRange n).flatMap (share { c with hub }), .goOn,
      { c with hub, views := c.views.map fun v => (v.follow c.store hub).2.takeNotices.2 }⟩ := by
  have hreport := report_eq (c := { c with hub }) fun i hi => (h i hi).reportable
  rw [h.select_eq, hselect]
  show Console.report { c with hub } >>= _ = _
  rw [hreport]
  rfl

/-- **What a settled console lists.** -/
theorem list_eq (h : c.Settled) (start count : Nat) :
    let rows := shown c.activeView.filter c.store.records
    let stop := min rows.length (start + count)
    c.list start count = c.prints
      (if start < stop then
        numbered c.active c.activeView.template start ((rows.take stop).drop start)
      else [.notice (aboutView c.active "no rows there")]) := by
  intro rows stop
  have hvalid := h.activeView.steady.valid
  have hlines : rowLines c.store c.active c.activeView start stop = .ok (numbered c.active
      c.activeView.template start ((rows.take stop).drop start)) :=
    rowLines_eq hvalid c.active (Nat.min_le_left ..)
  rw [list]
  simp only [h.activeView_current, setActiveView_activeView, hvalid.rowCount]
  split
  · show rowLines c.store c.active c.activeView start stop >>= c.prints = _
    rw [hlines]
    rfl
  · rfl

/-! ## Commands that report nothing -/

/-- The commands that list rows or report. -/
def Command.shows : Command → Bool
  | .select _ | .list .. | .clear => true
  | _ => false

theorem plain_of_notes {message : String} {step : Step n} (h : c.notes message = .ok step) :
    Plain step.lines := by
  rw [eq_of_prints h]
  exact plain_notice message

theorem plain_of_complains {message : String} {step : Step n}
    (h : c.complains message = .ok step) : Plain step.lines := by
  rw [eq_of_prints h]
  exact plain_error message

/-- **Rows are printed by listings and reports alone.** -/
theorem plain_of_handle {command : Command} {step : Step n} (hcommand : command.shows = false)
    (h : c.handle command = .ok step) : Plain step.lines := by
  cases command with
  | view i =>
    rw [handle] at h
    split at h
    · exact plain_of_notes h
    · exact plain_of_complains h
  | filter text =>
    rw [handle, filter] at h
    split at h
    · exact plain_of_notes h
    · exact plain_of_complains h
    · exact plain_of_complains h
  | template text =>
    rw [handle] at h
    split at h
    · exact plain_of_notes h
    · exact plain_of_complains h
  | goto timestamp =>
    rw [handle, goto] at h
    split at h
    · exact plain_of_complains h
    · obtain ⟨r, -, h⟩ := exists_of_bind_eq_ok h
      exact plain_of_notes h
  | count =>
    rw [eq_of_prints h]
    refine List.forall_mem_cons.2 ⟨⟨rfl, rfl⟩, ?_⟩
    intro l hl
    obtain ⟨x, -, rfl⟩ := List.mem_map.1 hl
    exact ⟨rfl, rfl⟩
  | follow on => exact plain_of_notes h
  | pause => exact plain_of_notes h
  | resume => exact plain_of_notes h
  | help =>
    rw [eq_of_prints h]
    exact plain_map_notice helpLines
  | quit =>
    cases h
    exact List.forall_mem_nil _
  | select row => cases hcommand
  | list start count => cases hcommand
  | clear => cases hcommand

end Console

end TraceViews
