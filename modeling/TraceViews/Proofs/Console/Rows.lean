import TraceViews.Proofs.Console.Reports

/-!
# The rows that a console prints

Rows are printed for insertions into the active view, and where they are listed. Each of them is a
row that the view has at that moment, with its record and in the form of its template
(`Console.showsRows_respond`).
-/

namespace TraceViews

namespace Console

/-! ## Rows among lines -/

/-- The record that a line shows as a row. -/
def Line.rowRecord? : Line → Option Record
  | .row _ _ r _ => some r
  | _ => none

theorem rowRecord?_numbered (i : Nat) (template : Template) (start : Nat) (records : List Record) :
    (numbered i template start records).filterMap Line.rowRecord? = records := by
  rw [numbered, List.filterMap_map]
  show (records.zipIdx start).filterMap (some ∘ Prod.fst) = records
  rw [List.filterMap_eq_map, List.zipIdx_map_fst]

theorem filter_isRow_numbered (i : Nat) (template : Template) (start : Nat)
    (records : List Record) :
    (numbered i template start records).filter Line.isRow = numbered i template start records := by
  rw [List.filter_eq_self]
  intro l hl
  obtain ⟨x, -, rfl⟩ := List.mem_map.1 hl
  rfl

/-- Only insertions into the active view print rows. -/
theorem filter_isRow_said (active following : Bool) (i : Nat) (template : Template)
    (rows : List Record) (x : Notice) :
    (said active following i template rows x).filter Line.isRow
      = match x with
        | .inserted span =>
          if active && following then
            numbered i template span.start ((rows.take span.stop).drop span.start)
          else []
        | _ => [] := by
  cases x with
  | inserted span =>
    rw [said]
    split
    · exact filter_isRow_numbered ..
    · rfl
  | removed span =>
    rw [said]
    split <;> rfl
  | reset =>
    rw [said]
    split <;> rfl
  | scrollTo row =>
    rw [said]
    cases rows[row]? <;> rfl

/-! ## Rows in reports -/

variable {n : Nat} {c : Console n} {i : Fin n}

theorem flatMap_finRange_eq {α : Type} {f : Fin n → List α} {i : Fin n}
    (h : ∀ j, j ≠ i → f j = []) : (List.finRange n).flatMap f = f i := by
  induction n with
  | zero => exact i.elim0
  | succ n ih =>
    rw [List.finRange_succ, List.flatMap_cons, List.flatMap_map]
    cases i using Fin.cases with
    | zero =>
      have hrest : (List.finRange n).flatMap (fun j => f j.succ) = [] :=
        List.flatMap_eq_nil_iff.2 fun j _ => h j.succ (Fin.succ_ne_zero j)
      rw [hrest, List.append_nil]
    | succ i =>
      rw [h 0 (Fin.succ_ne_zero i).symm, List.nil_append]
      exact ih fun j hj => h j.succ fun heq => hj (Fin.succ_inj.1 heq)

/-- The rows in a report are those of the active view. -/
theorem filter_isRow_flatMap_share (c : Console n) :
    ((List.finRange n).flatMap c.share).filter Line.isRow = (c.share c.active).filter Line.isRow := by
  rw [List.filter_flatMap]
  refine flatMap_finRange_eq ?_
  intro j hj
  rw [share, List.filter_flatMap, List.flatMap_eq_nil_iff]
  intro x hx
  rw [filter_isRow_said, decide_eq_false hj.symm]
  cases x <;> rfl

theorem template_follow (v : View) (s : Store) (hub : Hub) :
    (v.follow s hub).2.template = v.template := by
  rw [View.follow]
  split
  · rfl
  · dsimp only
    split
    · rfl
    · split <;> exact View.template_current _ s

/-! ## Rows of the moment -/

/-- The rows among some lines are rows of the active view, in the form of its template. -/
def ShowsRows (c : Console n) (lines : List Line) : Prop :=
  ∀ (view row : Nat) (r : Record) (rendered : String), .row view row r rendered ∈ lines →
    view = c.active ∧ c.activeView.record c.store row = .ok r ∧
      c.activeView.data c.store row = .ok rendered

theorem showsRows_of_plain {lines : List Line} (h : Plain lines) : c.ShowsRows lines := by
  intro view row r rendered hl
  cases (h _ hl).1

theorem row_of_mem_numbered {view start row : Nat} {template : Template} {records : List Record}
    {r : Record} {rendered : String} {j : Nat}
    (h : Line.row view row r rendered ∈ numbered j template start records) :
    view = j ∧ start ≤ row ∧ records[row - start]? = some r ∧ rendered = template.render r := by
  obtain ⟨⟨r', row'⟩, hx, heq⟩ := List.mem_map.1 h
  cases heq
  obtain ⟨hle, hr⟩ := List.mk_mem_zipIdx_iff_le_and_getElem?_sub.1 hx
  exact ⟨rfl, hle, hr, rfl⟩

/-- A row in the lines for rows of a view. -/
theorem row_of_mem_numbered_drop {view start stop row : Nat} {template : Template}
    {rows : List Record} {r : Record} {rendered : String} {j : Nat}
    (h : Line.row view row r rendered ∈ numbered j template start ((rows.take stop).drop start)) :
    view = j ∧ rows[row]? = some r ∧ rendered = template.render r := by
  obtain ⟨hview, hle, hr, hrendered⟩ := row_of_mem_numbered h
  rw [List.getElem?_drop, Nat.add_sub_cancel' hle, List.getElem?_take,
    Option.ite_none_right_eq_some] at hr
  exact ⟨hview, hr.2, hrendered⟩

theorem row_of_mem_share {view row : Nat} {r : Record} {rendered : String}
    (h : Line.row view row r rendered ∈ c.share i) :
    i = c.active ∧ view = i ∧ (shown (c.view i).filter c.store.records)[row]? = some r ∧
      rendered = (c.view i).template.render r := by
  obtain ⟨x, -, hx⟩ := List.mem_flatMap.1 h
  have hrow := (List.mem_filter (p := Line.isRow)).2 ⟨hx, rfl⟩
  rw [filter_isRow_said] at hrow
  split at hrow
  · split at hrow
    · next hactive =>
      rw [Bool.and_eq_true, decide_eq_true_iff] at hactive
      obtain ⟨hview, hr, hrendered⟩ := row_of_mem_numbered_drop hrow
      exact ⟨hactive.1.symm, hview, hr, hrendered⟩
    · cases hrow
  · cases hrow

/-- What a view shows in a row is found there, whatever it hears of selections. -/
theorem record_of_follow {v : View} {s : Store} (h : v.Steady s) (hub : Hub) {row : Nat}
    {r : Record} (hr : (shown v.filter s.records)[row]? = some r) :
    let v' := (v.follow s hub).2.takeNotices.2
    v'.record s row = .ok r ∧ v'.data s row = .ok (v.template.render r) := by
  intro v'
  have hkeeps : v.Keeps s (v.follow s hub).2 := .follow v hub
  have hvalid : v'.Valid s := (h.valid.keeps hkeeps).of_eq rfl rfl rfl
  have hfilter : v'.filter = v.filter := hkeeps.filter
  have htemplate : v'.template = v.template := template_follow v s hub
  have hrecord : v'.record s row = .ok r := hvalid.record (by rw [hfilter, hr])
  exact ⟨hrecord, by rw [View.data_of_record hrecord, htemplate]⟩

/-- The rows in a report are those that the active view has then. -/
theorem showsRows_report (h : ∀ (i : Nat) (hi : i < n), c.views[i].Reportable c.store i) :
    ShowsRows { c with views := c.views.map fun v => (v.follow c.store c.hub).2.takeNotices.2 }
      ((List.finRange n).flatMap c.share) := by
  intro view row r rendered hl
  obtain ⟨i, -, hl⟩ := List.mem_flatMap.1 hl
  obtain ⟨rfl, hview, hr, rfl⟩ := row_of_mem_share hl
  have hactive : activeView { c with
      views := c.views.map fun v => (v.follow c.store c.hub).2.takeNotices.2 }
        = ((c.view c.active).follow c.store c.hub).2.takeNotices.2 := Vector.getElem_map ..
  rw [hactive]
  exact ⟨hview, record_of_follow (h c.active c.active.isLt).steady c.hub hr⟩

theorem showsRows_refresh {change : Option Change} {store : Store} {step : Step n} (h : c.Settled)
    (hs : c.store.Step change store) (hstep : refresh { c with store } = .ok step) :
    step.console.ShowsRows step.lines := by
  cases (refresh_eq h hs).symm.trans hstep
  exact showsRows_report (reportable_noting h hs)

theorem showsRows_select (h : c.Settled) {row : Nat} {step : Step n}
    (hstep : c.select row = .ok step) : step.console.ShowsRows step.lines := by
  cases hselect : c.activeView.select c.store c.hub row with
  | error e =>
    rw [h.select_eq, hselect] at hstep
    exact showsRows_of_plain (plain_of_complains hstep)
  | ok selected =>
    obtain ⟨timestamp, hub⟩ := selected
    cases (select_eq h hselect).symm.trans hstep
    intro view row r rendered hl
    refine showsRows_report (c := { c with hub }) (fun i hi => (h i hi).reportable) view row r
      rendered ?_
    rcases List.mem_cons.1 hl with heq | hl
    · cases heq
    · exact hl

theorem showsRows_list (h : c.Settled) {start count : Nat} {step : Step n}
    (hstep : c.list start count = .ok step) : step.console.ShowsRows step.lines := by
  rw [list_eq h] at hstep
  rw [eq_of_prints hstep]
  split
  · intro view row r rendered hl
    obtain ⟨hview, hr, rfl⟩ := row_of_mem_numbered_drop hl
    have hrecord := h.activeView.steady.valid.record hr
    exact ⟨hview, hrecord, View.data_of_record hrecord⟩
  · exact showsRows_of_plain (plain_notice _)

/-- **Every row that is printed is a row of the active view at that moment.** -/
theorem showsRows_respond (h : c.Settled) {input : Input} {step : Step n}
    (hstep : c.respond input = .ok step) : step.console.ShowsRows step.lines := by
  cases input with
  | tick =>
    obtain ⟨change, hs⟩ := exists_step_drain c.store
    exact showsRows_refresh h hs hstep
  | command command =>
    cases hshows : command.shows with
    | false => exact showsRows_of_plain (plain_of_handle hshows hstep)
    | true =>
      cases command with
      | select row => exact showsRows_select h hstep
      | list start count => exact showsRows_list h hstep
      | clear => exact showsRows_refresh h .clear hstep
      | _ => cases hshows
  | reject e =>
    cases hstep
    exact showsRows_of_plain (plain_error e.message)
  | _ =>
    cases hstep
    exact showsRows_of_plain (List.forall_mem_nil _)

end Console

end TraceViews
