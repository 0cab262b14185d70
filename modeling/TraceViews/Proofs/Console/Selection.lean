import TraceViews.Proofs.Console.Reports

/-!
# Selections

A row that is selected gives its point in time to the other views. Each of them that has rows
follows at once to the nearest one, and says so; the active view does not hear of its own selection.
Main statement: this is what a selection prints, and nothing else moves a view
(`Console.spreads_of_run`).
-/

namespace TraceViews

/-! ## Hearing of a selection -/

theorem lastOfOthers_singleton (id : Nat) (x : Selection) :
    lastOfOthers id [x] = if x.source = id then none else some x.timestamp := by
  rw [lastOfOthers_eq_find?, List.reverse_singleton, List.find?_singleton]
  by_cases h : x.source = id
  · simp [h]
  · simp [h]

namespace View

variable {v : View} {s : Store} {hub : Hub} {i : Nat}

theorem nearestRow_of_empty (h : v.rowCount s = 0) (timestamp : Timestamp) :
    v.nearestRow s timestamp = .error .empty :=
  if_pos h

theorem exists_nearestRow_of_pos (h : 0 < v.rowCount s) (timestamp : Timestamp) :
    ∃ row, v.nearestRow s timestamp = .ok row :=
  ⟨_, if_neg (Nat.ne_of_gt h)⟩

/-- **What a selection means to a view** that had heard of all earlier ones: its own one nothing,
another one a row to go to, if it has any. -/
theorem Settled.follow_publish (h : v.Settled s hub i) (publisher : Participant)
    (timestamp : Timestamp) :
    (v.follow s (hub.publish publisher timestamp)).1
      = if publisher.id = i then none else (v.nearestRow s timestamp).toOption := by
  obtain ⟨p, hp, hid, hcursor⟩ := h.participant
  have hsent : (hub.publish publisher timestamp).selections.sent.toList
      = hub.selections.sent.toList ++ [⟨publisher.id, timestamp⟩] := Array.toList_push
  have hlatest := Hub.latest_eq (p := p) hsent (by rw [hcursor, Array.length_toList])
  rw [newest_of_length_le (Nat.succ_le_succ (Nat.zero_le 63)), lastOfOthers_singleton, hid] at hlatest
  have hnearest : ∀ p, View.nearestRow { v with participant := some p } s timestamp
      = v.nearestRow s timestamp := by
    intro p
    have hvalid : View.Valid { v with participant := some p } s := h.steady.valid.of_eq rfl rfl rfl
    rw [hvalid.nearestRow, h.steady.valid.nearestRow]
  rw [follow, hp]
  dsimp only
  rw [hlatest]
  simp only [current_participant, h.steady.inSync.current_eq]
  by_cases hown : publisher.id = i
  · simp only [if_pos hown]
  · simp only [if_neg hown, hnearest]
    cases v.nearestRow s timestamp <;> rfl

end View

namespace Console

variable {n : Nat} {c : Console n}

/-! ## What a selection prints -/

/-- The notice of a selection. -/
def selected (c : Console n) (row : Nat) (timestamp : Timestamp) : Line :=
  .notice (aboutView c.active ("selected row " ++ Text.showNat row ++ " at "
    ++ Text.showInt64 timestamp))

/-- A selection at a point in time is spread to the views, where `lines` are what each of them says
of it. -/
structure Spreads (c : Console n) (timestamp : Timestamp) (lines : Fin n → List Line) : Prop where
  /-- The active view says how many rows it has, if it still had to. -/
  active : lines c.active = c.activeView.notices.toList.map fun _ =>
    .notice (aboutView c.active (countRows (c.activeView.rowCount c.store)))
  /-- A view without rows says nothing, -/
  empty : ∀ i, i ≠ c.active → (c.view i).rowCount c.store = 0 → lines i = []
  /-- and another one the row nearest to the point in time, with its record. -/
  follows : ∀ i, i ≠ c.active → 0 < (c.view i).rowCount c.store →
    ∃ row r, (c.view i).nearestRow c.store timestamp = .ok row ∧
      (c.view i).record c.store row = .ok r ∧ lines i = [.synced i row r]

/-- Nothing but resets waits for a report, and they are reported for the active view alone. -/
theorem flatMap_said_of_resets {notices : List Notice} (h : ∀ x ∈ notices, x = .reset)
    (active following : Bool) (i : Nat) (template : Template) (rows : List Record) :
    notices.flatMap (said active following i template rows)
      = if active then notices.map fun _ => .notice (aboutView i (countRows rows.length))
        else [] := by
  induction notices with
  | nil => exact (ite_self []).symm
  | cons x notices ih =>
    obtain ⟨rfl, hnotices⟩ := List.forall_mem_cons.1 h
    rw [List.flatMap_cons, ih hnotices, said]
    cases active <;> rfl

/-- The share of a view in the report of a selection: what it had to report, and where it goes. -/
theorem share_publish (h : c.Settled) {publisher : Participant} (hid : publisher.id = c.active)
    (timestamp : Timestamp) (i : Fin n) :
    share { c with hub := c.hub.publish publisher timestamp } i
      = if i = c.active then c.activeView.notices.toList.map fun _ =>
          .notice (aboutView c.active (countRows (c.activeView.rowCount c.store)))
        else (((c.view i).nearestRow c.store timestamp).toOption.map Notice.scrollTo).toList.flatMap
          (said false c.following i (c.view i).template
            (shown (c.view i).filter c.store.records)) := by
  have hview : (c.view i).Settled c.store c.hub i := h i i.isLt
  have hnotices := notices_follow (c.view i) c.store (c.hub.publish publisher timestamp)
  rw [hview.follow_publish publisher timestamp, hid] at hnotices
  show ((c.view i).follow c.store (c.hub.publish publisher timestamp)).2.notices.toList.flatMap
    (said (c.active = i) c.following i (c.view i).template
      (shown (c.view i).filter c.store.records)) = _
  rw [hnotices, List.flatMap_append, flatMap_said_of_resets hview.notices]
  by_cases hactive : i = c.active
  · subst hactive
    simp only [if_true, decide_true, Option.map_none, Option.toList_none, List.flatMap_nil,
      List.append_nil]
    rw [h.activeView.steady.valid.rowCount]
    rfl
  · have hne : (c.active : Nat) ≠ i := fun heq => hactive (Fin.ext heq.symm)
    rw [if_neg hne, if_neg hactive, decide_eq_false (Ne.symm hactive)]
    rfl

theorem spreads_share (h : c.Settled) {publisher : Participant} (hid : publisher.id = c.active)
    (timestamp : Timestamp) :
    c.Spreads timestamp (share { c with hub := c.hub.publish publisher timestamp }) := by
  constructor
  case active => rw [share_publish h hid, if_pos rfl]
  case empty =>
    intro i hactive hempty
    rw [share_publish h hid, if_neg hactive, View.nearestRow_of_empty hempty]
    rfl
  case follows =>
    intro i hactive hpos
    have hview : (c.view i).Settled c.store c.hub i := h i i.isLt
    obtain ⟨row, hrow⟩ := View.exists_nearestRow_of_pos hpos timestamp
    have hlt : row < (shown (c.view i).filter c.store.records).length := by
      rw [← hview.steady.valid.rowCount]
      exact View.lt_of_nearestRow hrow
    have hr := List.getElem?_eq_getElem hlt
    refine ⟨row, _, hrow, hview.steady.valid.record hr, ?_⟩
    rw [share_publish h hid, if_neg hactive, hrow]
    show said _ _ _ _ _ (.scrollTo row) ++ [] = _
    rw [said, hr]
    rfl

/-- **A row that is there is selected.** -/
theorem exists_select_of_lt (h : c.Settled) {row : Nat}
    (hrow : row < c.activeView.rowCount c.store) :
    ∃ r console lines, c.activeView.record c.store row = .ok r ∧
      c.select row = .ok ⟨c.selected row r.timestamp :: (List.finRange n).flatMap lines, .goOn,
        console⟩ ∧ c.Spreads r.timestamp lines := by
  obtain ⟨r, hr⟩ := View.exists_record_of_lt hrow
  obtain ⟨p, hp, hid, -⟩ := h.activeView.participant
  have hselect : c.activeView.select c.store c.hub row
      = .ok (r.timestamp, c.hub.publish p r.timestamp) := by
    rw [View.select, hr, hp]
  exact ⟨r, _, _, hr, select_eq h hselect, spreads_share h hid r.timestamp⟩

/-- A row that is not there is answered by an error, and no view hears of it. -/
theorem select_of_le (h : c.Settled) {row : Nat} (hrow : c.activeView.rowCount c.store ≤ row) :
    c.select row = .ok ⟨[.error (StoreError.outOfRange row (c.activeView.rowCount c.store)).message],
      .goOn, c⟩ := by
  have hvalid := h.activeView.steady.valid
  have herror : c.activeView.select c.store c.hub row
      = .error (.outOfRange row (c.activeView.rowCount c.store)) := by
    rw [View.select, View.record, hvalid.row_of_le (by rw [← hvalid.rowCount]; exact hrow),
      hvalid.rowCount]
    rfl
  rw [h.select_eq, herror]
  rfl

/-! ## What else is printed -/

/-- No line tells of a view that followed a selection. -/
def Unmoved (lines : List Line) : Prop := ∀ l ∈ lines, l.isSynced = false

theorem Plain.unmoved {lines : List Line} (h : Plain lines) : Unmoved lines :=
  fun l hl => (h l hl).2

theorem unmoved_numbered (i : Nat) (template : Template) (start : Nat) (records : List Record) :
    Unmoved (numbered i template start records) := by
  intro l hl
  obtain ⟨x, -, rfl⟩ := List.mem_map.1 hl
  rfl

theorem unmoved_said {x : Notice} (h : ∀ row, x ≠ .scrollTo row) (active following : Bool)
    (i : Nat) (template : Template) (rows : List Record) :
    Unmoved (said active following i template rows x) := by
  cases x with
  | inserted span =>
    rw [said]
    split
    · exact unmoved_numbered _ _ _ _
    · exact List.forall_mem_nil _
  | removed span =>
    rw [said]
    split
    · exact (plain_notice _).unmoved
    · exact List.forall_mem_nil _
  | reset =>
    rw [said]
    split
    · exact (plain_notice _).unmoved
    · exact List.forall_mem_nil _
  | scrollTo row => exact absurd rfl (h row)

theorem ne_scrollTo_of_mem_removal {was : Nat} {changes : List Change} {x : Notice}
    (h : x ∈ removal was changes) (row : Nat) : x ≠ .scrollTo row := by
  rw [removal, List.mem_ite_nil_right] at h
  rw [List.mem_singleton.1 h.2]
  simp

/-- Changes of the store scroll no view. -/
theorem ne_scrollTo_of_mem_refreshNotices {was now : Nat} {changes : List Change} {x : Notice}
    (h : x ∈ refreshNotices was now changes) (row : Nat) : x ≠ .scrollTo row := by
  rw [refreshNotices] at h
  split at h
  · rcases List.mem_append.1 h with hx | hx
    · exact ne_scrollTo_of_mem_removal hx row
    · rw [List.mem_ite_nil_right] at hx
      rw [List.mem_singleton.1 hx.2]
      simp
  · rcases List.mem_append.1 h with hx | hx
    · exact ne_scrollTo_of_mem_removal hx row
    · rw [List.mem_singleton.1 hx]
      simp

theorem unmoved_refresh (h : c.Settled) {change : Option Change} {store : Store}
    (hs : c.store.Step change store) {step : Step n} (hstep : refresh { c with store } = .ok step) :
    Unmoved step.lines := by
  cases (refresh_eq h hs).symm.trans hstep
  intro l hl
  obtain ⟨i, -, hl⟩ := List.mem_flatMap.1 hl
  rw [share_noting h hs] at hl
  obtain ⟨x, hx, hl⟩ := List.mem_flatMap.1 hl
  refine unmoved_said ?_ _ _ _ _ _ l hl
  intro row
  rcases List.mem_append.1 hx with hx | hx
  · rw [(h i i.isLt).notices x hx]
    simp
  · exact ne_scrollTo_of_mem_refreshNotices hx row

theorem unmoved_list (h : c.Settled) {start count : Nat} {step : Step n}
    (hstep : c.list start count = .ok step) : Unmoved step.lines := by
  rw [list_eq h] at hstep
  rw [eq_of_prints hstep]
  split
  · exact unmoved_numbered _ _ _ _
  · exact (plain_notice _).unmoved

/-- **Nothing but a selection moves a view.** -/
theorem exists_select_of_synced (h : c.Settled) {input : Input} {step : Step n}
    (hstep : c.respond input = .ok step) {l : Line} (hl : l ∈ step.lines)
    (hsynced : l.isSynced = true) :
    ∃ row, input = .command (.select row) ∧ row < c.activeView.rowCount c.store := by
  have hmoved : ¬ Unmoved step.lines := by
    intro hunmoved
    rw [hunmoved l hl] at hsynced
    cases hsynced
  cases input with
  | tick =>
    obtain ⟨change, hs⟩ := exists_step_drain c.store
    exact absurd (unmoved_refresh h hs hstep) hmoved
  | command command =>
    cases hshows : command.shows with
    | false => exact absurd (plain_of_handle hshows hstep).unmoved hmoved
    | true =>
      cases command with
      | select row =>
        refine ⟨row, rfl, Nat.lt_of_not_le fun hle => ?_⟩
        cases (select_of_le h hle).symm.trans hstep
        exact hmoved (plain_error _).unmoved
      | list start count => exact absurd (unmoved_list h hstep) hmoved
      | clear => exact absurd (unmoved_refresh h .clear hstep) hmoved
      | _ => cases hshows
  | reject e =>
    cases hstep
    exact absurd (plain_error e.message).unmoved hmoved
  | _ =>
    cases hstep
    exact absurd (List.forall_mem_nil _) hmoved

/-! ## Runs -/

/-- **A selection moves every other view, once, and only those.** Whatever a console has been through
since it was opened: a row that is there is selected, and each other view with rows says at once
which one it followed to; a row that is not there is answered by an error that changes nothing; no
other input has a view follow a selection; and none waits for a view that it has not heard of. -/
theorem spreads_of_run (settings : Settings) (hpos : 0 < settings.views) (source : Source)
    (opened c : Console settings.views) (earlier : List Input) (before : List Answer)
    (hopened : make settings hpos source = .ok opened)
    (hearlier : opened.run earlier = .ok (before, c)) :
    (∀ row, row < c.activeView.rowCount c.store →
      ∃ r console lines, c.activeView.record c.store row = .ok r ∧
        c.handle (.select row) = .ok ⟨c.selected row r.timestamp ::
          (List.finRange settings.views).flatMap lines, .goOn, console⟩ ∧
        c.Spreads r.timestamp lines) ∧
      (∀ row, c.activeView.rowCount c.store ≤ row →
        c.handle (.select row) = .ok ⟨[.error
          (StoreError.outOfRange row (c.activeView.rowCount c.store)).message], .goOn, c⟩) ∧
      (∀ input step, c.respond input = .ok step → ∀ l ∈ step.lines, l.isSynced = true →
        ∃ row, input = .command (.select row) ∧ row < c.activeView.rowCount c.store) ∧
      ∀ v ∈ c.views.toList, ∃ p, v.participant = some p ∧
        (c.hub.selections.deliver p.cursor).missed = 0 ∧
        (c.hub.selections.deliver p.cursor).values = [] := by
  obtain ⟨answers, reached, hrun, -, hsettled⟩ := settled_run (settled_make hopened) earlier
  cases hearlier.symm.trans hrun
  refine ⟨?_, ?_, ?_, hsettled.atRest.heard⟩
  · intro row hrow
    exact exists_select_of_lt hsettled hrow
  · intro row hrow
    exact select_of_le hsettled hrow
  · intro input step hstep l hl hsynced
    exact exists_select_of_synced hsettled hstep hl hsynced

/-- Of three views the last one has no rows, and the active one still has to report its template. -/
theorem spreads_to_filtered_view :
    let settings : Settings := { Settings.standard with backlog := 1, views := 3 }
    let source : Source := ⟨⟨fun _ => 0, 0⟩, .counting 1 1, ["net"]⟩
    let up : Record := ⟨"2", "net", 7, "up"⟩
    let full : Record := ⟨"3", "disk", 8, "full"⟩
    let earlier : List Input := [.receive [up, full], .tick, .command (.view 1),
      .command (.filter (some "module eq \"disk\"")), .command (.view 2),
      .command (.filter (some "timestamp eq 9")), .command (.view 0),
      .command (.template "\x7bmessage\x7d")]
    ∃ opened before c, make settings (by decide) source = .ok opened ∧
      opened.run earlier = .ok (before, c) ∧ 1 < c.activeView.rowCount c.store ∧
      ∃ console lines, c.handle (.select 1)
          = .ok ⟨c.selected 1 7 :: (List.finRange 3).flatMap lines, .goOn, console⟩ ∧
        lines 0 = [.notice "view 0: 3 rows"] ∧ lines 1 = [.synced 1 0 full] ∧ lines 2 = [] := by
  intro settings source up full earlier
  obtain ⟨opened, hopened⟩ := exists_of_isOk (x := make settings (by decide) source)
    (by decide +kernel)
  have hrun : ((make settings (by decide) source).toOption.any fun opened =>
      (opened.run earlier).isOk) = true := by
    decide +kernel
  have hreached : ((make settings (by decide) source).toOption.all fun opened =>
      (opened.run earlier).toOption.all fun (_, c) => decide (c.active.val = 0 ∧
        c.activeView.notices.toList = [.reset] ∧
        c.activeView.rowCount c.store = 3 ∧ 0 < (c.view 1).rowCount c.store ∧
        (c.view 2).rowCount c.store = 0 ∧
        (c.activeView.record c.store 1).toOption = some up ∧
        ((c.view 1).nearestRow c.store 7).toOption = some 0 ∧
        ((c.view 1).record c.store 0).toOption = some full)) = true := by
    decide +kernel
  rw [hopened] at hrun hreached
  obtain ⟨⟨before, c⟩, hc⟩ := exists_of_isOk hrun
  rw [show (Except.ok opened : Except OpenError _).toOption = some opened from rfl,
    Option.all_some, hc] at hreached
  obtain ⟨hactive, hnotices, hcount, hpos, hempty, hup, hnearest, hfull⟩ :=
    of_decide_eq_true hreached
  have hactive : c.active = 0 := Fin.ext hactive
  have hrow : 1 < c.activeView.rowCount c.store := by
    rw [hcount]
    decide
  obtain ⟨r, console, lines, hr, hselect, hspreads⟩ :=
    (spreads_of_run settings (by decide) source opened c earlier before hopened hc).1 1 hrow
  obtain rfl : up = r := Except.ok.inj ((eq_ok_of_toOption hup).symm.trans hr)
  have h0 := hspreads.active
  obtain ⟨row, r', hrow', hr', h1⟩ := hspreads.follows 1 (by rw [hactive]; decide) hpos
  have h2 := hspreads.empty 2 (by rw [hactive]; decide) hempty
  obtain rfl : 0 = row := Except.ok.inj ((eq_ok_of_toOption hnearest).symm.trans hrow')
  obtain rfl : full = r' := Except.ok.inj ((eq_ok_of_toOption hfull).symm.trans hr')
  rw [hactive, hnotices, hcount] at h0
  exact ⟨opened, before, c, hopened, hc, hrow, console, lines, hselect,
    h0.trans (by decide +kernel), h1, h2⟩

end Console

end TraceViews
