import TraceViews.Proofs.Console.Safety

/-!
# Inspections

Between two inputs all rows of a console's views are up to date. So a command that only looks at
rows has none to bring up to date, and the console is the same behind it; so is one that is answered
by an error (`Console.console_eq_of_inspects`). Inspections anywhere in a run therefore change no
other answer (`Console.run_kept`).
-/

namespace TraceViews.Console

/-! ## Errors -/

/-- There is an error among the lines. -/
def Complains (lines : List Line) : Prop := ∃ message, .error message ∈ lines

theorem complains_notice_cons {message : String} {lines : List Line} :
    Complains (.notice message :: lines) ↔ Complains lines := by
  simp [Complains]

theorem not_complains_nil : ¬ Complains [] := by
  simp [Complains]

theorem not_complains_rowLines {s : Store} {i : Nat} {v : View} {start stop : Nat}
    {lines : List Line} (h : rowLines s i v start stop = .ok lines) : ¬ Complains lines := by
  rintro ⟨message, hmem⟩
  obtain ⟨row, -, hrow⟩ := exists_of_mem_mapM h hmem
  obtain ⟨r, -, hrow⟩ := exists_of_bind_eq_ok hrow
  obtain ⟨rendered, -, hrow⟩ := exists_of_bind_eq_ok hrow
  cases hrow

theorem not_complains_noticeLines {s : Store} {active following : Bool} {i : Nat} {v : View}
    {x : Notice} {lines : List Line} (h : noticeLines s active following i v x = .ok lines) :
    ¬ Complains lines := by
  cases x with
  | inserted span =>
    rw [noticeLines] at h
    split at h
    · exact not_complains_rowLines h
    · cases h
      exact not_complains_nil
  | removed span =>
    rw [noticeLines] at h
    split at h <;> cases h <;> simp [Complains]
  | reset =>
    rw [noticeLines] at h
    split at h <;> cases h <;> simp [Complains]
  | scrollTo row =>
    obtain ⟨r, -, h⟩ := exists_of_bind_eq_ok h
    cases h
    simp [Complains]

theorem not_complains_reportView {s : Store} {hub : Hub} {active following : Bool} {i : Nat}
    {v : View} {report : List Line × View}
    (h : reportView s hub active following i v = .ok report) : ¬ Complains report.1 := by
  obtain ⟨lines, hlines, h⟩ := exists_of_bind_eq_ok h
  cases h
  rintro ⟨message, hmem⟩
  obtain ⟨printed, hprinted, hmem⟩ := List.mem_flatten.1 hmem
  obtain ⟨x, -, hx⟩ := exists_of_mem_mapM hlines hprinted
  exact not_complains_noticeLines hx ⟨message, hmem⟩

variable {n : Nat} {c : Console n}

/-- No report has an error. -/
theorem not_complains_report {lines : List Line} {c' : Console n}
    (h : c.report = .ok (lines, c')) : ¬ Complains lines := by
  obtain ⟨reports, hreports, h⟩ := exists_of_bind_eq_ok h
  cases h
  rintro ⟨message, hmem⟩
  obtain ⟨report, hreport, hmem⟩ := List.mem_flatMap.1 hmem
  obtain ⟨view, hview, hok⟩ := exists_of_mem_vector_mapM hreports hreport
  obtain ⟨i, hi, rfl⟩ := Vector.mem_iff_getElem.1 (Vector.mem_toList_iff.1 hview)
  rw [Vector.getElem_mapFinIdx] at hok
  exact not_complains_reportView hok ⟨message, hmem⟩

theorem not_complains_refresh {step : Step n} (h : c.refresh = .ok step) :
    ¬ Complains step.lines := by
  obtain ⟨⟨lines, c'⟩, hreport, h⟩ := exists_of_bind_eq_ok h
  cases h
  exact not_complains_report hreport

/-! ## Steps that change nothing -/

theorem eq_of_prints {lines : List Line} {step : Step n} (h : c.prints lines = .ok step) :
    step = ⟨lines, .goOn, c⟩ := by
  cases h
  rfl

theorem not_complains_notes {message : String} {step : Step n} (h : c.notes message = .ok step) :
    ¬ Complains step.lines := by
  rw [eq_of_prints h]
  simp [Complains]

theorem console_eq_of_complains {message : String} {step : Step n}
    (h : c.complains message = .ok step) : step.console = c := by
  rw [eq_of_prints h]

theorem console_eq_of_list (hc : c.Settled) {start count : Nat} {step : Step n}
    (h : c.list start count = .ok step) : step.console = c := by
  rw [list] at h
  simp only [hc.activeView_current, setActiveView_activeView] at h
  split at h
  · obtain ⟨lines, -, h⟩ := exists_of_bind_eq_ok h
    rw [eq_of_prints h]
  · rw [eq_of_prints h]

theorem console_eq_of_count (hc : c.Settled) {step : Step n} (h : c.count = .ok step) :
    step.console = c := by
  simp only [count, hc.map_current] at h
  rw [eq_of_prints h]

theorem console_eq_of_goto {timestamp : Timestamp} {step : Step n}
    (h : c.goto timestamp = .ok step) : step.console = c := by
  rw [goto] at h
  split at h
  · exact console_eq_of_complains h
  · obtain ⟨r, -, h⟩ := exists_of_bind_eq_ok h
    rw [eq_of_prints h]

/-- **A command that is answered by an error changes nothing.** -/
theorem console_eq_of_handle_complains {command : Command} {step : Step n} (hc : c.Settled)
    (h : c.handle command = .ok step) (herror : Complains step.lines) : step.console = c := by
  cases command with
  | view i =>
    rw [handle] at h
    split at h
    · exact absurd herror (not_complains_notes h)
    · exact console_eq_of_complains h
  | filter text =>
    rw [handle, filter] at h
    split at h
    · exact absurd herror (not_complains_notes h)
    · exact console_eq_of_complains h
    · exact console_eq_of_complains h
  | template text =>
    rw [handle] at h
    split at h
    · exact absurd herror (not_complains_notes h)
    · exact console_eq_of_complains h
  | select row =>
    rw [handle, hc.select_eq] at h
    split at h
    · exact console_eq_of_complains h
    · -- a row is selected, and what the views report of it has no error
      obtain ⟨⟨lines, c'⟩, hreport, h⟩ := exists_of_bind_eq_ok h
      rw [eq_of_prints h] at herror
      exact absurd (complains_notice_cons.1 herror) (not_complains_report hreport)
  | goto timestamp => exact console_eq_of_goto h
  | list start count => exact console_eq_of_list hc h
  | count => exact console_eq_of_count hc h
  | follow on => exact absurd herror (not_complains_notes h)
  | pause => exact absurd herror (not_complains_notes h)
  | resume => exact absurd herror (not_complains_notes h)
  | clear => exact absurd herror (not_complains_refresh h)
  | help => rw [eq_of_prints h]
  | quit =>
    cases h
    rfl

/-- The inputs that inspect a console: they list rows, count them, look up a point in time or ask
for help; or they are answered by an error, commands as well as lines that are none. -/
inductive Inspects (c : Console n) : Input → Prop
  | list (start count : Nat) : Inspects c (.command (.list start count))
  | count : Inspects c (.command .count)
  | goto (timestamp : Timestamp) : Inspects c (.command (.goto timestamp))
  | help : Inspects c (.command .help)
  | reject (e : CommandError) : Inspects c (.reject e)
  | complains {command : Command} {step : Step n} (hstep : c.handle command = .ok step)
      (herror : Complains step.lines) : Inspects c (.command command)

/-- **An inspection changes nothing.** -/
theorem console_eq_of_inspects {input : Input} {step : Step n} (hc : c.Settled)
    (h : c.Inspects input) (hstep : c.respond input = .ok step) : step.console = c := by
  cases h with
  | list start count => exact console_eq_of_list hc hstep
  | count => exact console_eq_of_count hc hstep
  | goto timestamp => exact console_eq_of_goto hstep
  | help => rw [eq_of_prints hstep]
  | reject e =>
    cases hstep
    rfl
  | complains hstep' herror =>
    cases hstep'.symm.trans hstep
    exact console_eq_of_handle_complains hc hstep herror

/-! ## Inspections in a run -/

/-- An input of a run, which may be inserted there. -/
structure Mark where
  input : Input
  inserted : Bool

/-- Those of a list that belong to inputs which are not inserted. -/
def kept {α : Type} : List Mark → List α → List α
  | m :: marks, a :: as => if m.inserted then kept marks as else a :: kept marks as
  | _, _ => []

/-- Every input that is inserted is an inspection of the console that it comes to. -/
def InsertsInspections (c : Console n) : List Mark → Prop
  | [] => True
  | m :: marks => (m.inserted = true → c.Inspects m.input) ∧
      ∀ step, c.respond m.input = .ok step → step.console.InsertsInspections marks

/-- What inspects any console may be inserted into any run. -/
theorem insertsInspections_of_forall {marks : List Mark}
    (h : ∀ m ∈ marks, m.inserted = true → ∀ c : Console n, c.Inspects m.input) :
    c.InsertsInspections marks := by
  induction marks generalizing c with
  | nil => trivial
  | cons m marks ih =>
    obtain ⟨hm, hmarks⟩ := List.forall_mem_cons.1 h
    exact ⟨fun hinserted => hm hinserted c, fun _ _ => ih hmarks⟩

theorem exists_run_kept (hc : c.Settled) {marks : List Mark}
    (h : c.InsertsInspections marks) :
    ∃ answers c', c.run (marks.map Mark.input) = .ok (answers, c') ∧
      c.run (kept marks (marks.map Mark.input)) = .ok (kept marks answers, c') := by
  induction marks generalizing c with
  | nil => exact ⟨[], c, rfl, rfl⟩
  | cons m marks ih =>
    obtain ⟨hinspects, hmarks⟩ := h
    obtain ⟨step, hstep, -, hsettled⟩ := settled_respond hc m.input
    obtain ⟨answers, c', hrun, hkept⟩ := ih hsettled (hmarks step hstep)
    refine ⟨⟨step.lines, step.flow⟩ :: answers, c', run_cons hstep hrun, ?_⟩
    rw [List.map_cons, kept, kept]
    cases hm : m.inserted with
    | true =>
      -- the step leaves the console as it is, so the run without it goes on from the same one
      rw [console_eq_of_inspects hc (hinspects hm) hstep] at hkept
      exact hkept
    | false => exact run_cons hstep hkept

/-- **Inspections do not interfere.** Whatever a console has been through since it was opened, a run
with inspections inserted anywhere answers the other inputs as the run without the insertions does,
and leaves the console as that one does. -/
theorem run_kept (settings : Settings) (hpos : 0 < settings.views) (source : Source)
    (opened c : Console settings.views) (earlier : List Input) (before : List Answer)
    (hopened : make settings hpos source = .ok opened)
    (hearlier : opened.run earlier = .ok (before, c)) (marks : List Mark)
    (h : c.InsertsInspections marks) :
    ∃ answers c', c.run (marks.map Mark.input) = .ok (answers, c') ∧
      c.run (kept marks (marks.map Mark.input)) = .ok (kept marks answers, c') := by
  obtain ⟨answers, reached, hrun, -, hsettled⟩ := settled_run (settled_make hopened) earlier
  cases hearlier.symm.trans hrun
  exact exists_run_kept hsettled h

/-- A console that was asked for a row and a view that it does not have, and for much else, shows,
selects and ends as one that was not. -/
theorem run_kept_of_missing_row :
    let settings : Settings := { Settings.standard with backlog := 0 }
    let source : Source := ⟨⟨fun _ => 0, 0⟩, .counting 1 1, ["net"]⟩
    let marks : List Mark := [⟨.command (.select 0), true⟩,
      ⟨.receive [⟨"2", "net", 7, "up"⟩], false⟩, ⟨.command (.list 0 20), true⟩, ⟨.tick, false⟩,
      ⟨.command .count, true⟩, ⟨.command (.view 2), true⟩, ⟨.command (.select 0), false⟩,
      ⟨.command (.goto 9), true⟩, ⟨.command .help, true⟩, ⟨.reject .empty, true⟩,
      ⟨.command .quit, false⟩]
    ∃ c, make settings (by decide) source = .ok c ∧ c.run [] = .ok ([], c) ∧
      c.InsertsInspections marks ∧
      ∃ answers c', c.run (marks.map Mark.input) = .ok (answers, c') ∧
        c.run [.receive [⟨"2", "net", 7, "up"⟩], .tick, .command (.select 0), .command .quit]
          = .ok (kept marks answers, c') := by
  intro settings source marks
  obtain ⟨c, hc⟩ := exists_of_isOk (x := make settings (by decide) source) 
    (by decide +kernel)
  -- no row is there yet
  have hselect : ((make settings (by decide) source).toOption.bind fun c =>
      (c.handle (.select 0)).toOption.map Step.lines)
        = some [.error (StoreError.outOfRange 0 0).message] := by
    decide +kernel
  have hmarks : c.InsertsInspections marks := by
    rw [hc] at hselect
    obtain ⟨step, hstep, hlines⟩ := Option.map_eq_some_iff.1 hselect
    have herror : Complains step.lines := ⟨_, hlines ▸ List.mem_singleton_self _⟩
    refine ⟨fun _ => .complains (eq_ok_of_toOption hstep) herror, fun step _ => ?_⟩
    -- the other insertions inspect any console with two views
    refine insertsInspections_of_forall ?_
    simp only [List.forall_mem_cons]
    exact ⟨nofun, fun _ _ => .list 0 20, nofun, fun _ _ => .count,
      fun _ _ => .complains rfl ⟨_, List.mem_singleton_self _⟩, nofun, fun _ _ => .goto 9,
      fun _ _ => .help, fun _ _ => .reject .empty, nofun, nofun⟩
  exact ⟨c, hc, rfl, hmarks, run_kept settings (by decide) source c c [] [] hc rfl marks hmarks⟩

end TraceViews.Console
