import Mathlib.Data.List.TakeWhile
import TraceViews.Proofs.Filter.Binding
import TraceViews.Proofs.View.Steady

/-!
# Installing filters and templates

A text is installed as a filter if it is blank, or if it is parsed, bound, and tried on a record
(`Installs`); otherwise it is refused, for the first of these that fails (`Refuses`). What is
refused changes nothing, so a run may as well go without it (`Workspace.run_withoutRefused`).
Main statement: `Workspace.installing_of_run`.
-/

namespace TraceViews

open TraceViews.Filter

/-! ## What a text is -/

theorem Text.trim_eq_nil_iff (cs : List Char) : trim cs = [] ↔ allBlank cs = true := by
  rw [trim, trimEnd, List.reverse_eq_nil_iff, List.dropWhile_eq_nil_iff, allBlank, List.all_eq_true]
  constructor
  · intro h
    -- the rest would begin with a character that is not white space
    have hrest : cs.dropWhile isBlank = [] := by
      cases hcs : cs.dropWhile isBlank with
      | nil => rfl
      | cons c rest =>
        have hblank : isBlank c = true := h c (by simp [hcs])
        have hhead := List.head?_dropWhile_not isBlank cs
        rw [hcs] at hhead
        simp [hblank] at hhead
    exact List.dropWhile_eq_nil_iff.1 hrest
  · intro h c hc
    exact h c ((List.dropWhile_sublist _).subset (List.mem_reverse.1 hc))

/-- **What a text is installed as**, on a store: no filter if nothing is left of it without the white
space around it; otherwise the expression that it is parsed to, if none of its comparisons fails on
records and there is a record. -/
inductive Installs (s : Store) (text : String) : Option RecordFilter → Prop where
  | blank (h : Text.trim text.toList = []) : Installs s text none
  | filter {e : Expr} (h : Text.trim text.toList ≠ []) (hparse : parse text = .ok e)
    (hbind : ∀ c ∈ e.comparisons, ∀ x, ¬ c.Fails fieldKind? x) (hrecords : s.records ≠ #[]) :
    Installs s text (some ⟨text, e⟩)

/-- **Why a text is refused**, on a store: it is not parsed; one of its comparisons fails on records,
and then the first one of these counts; or there is no record. -/
inductive Refuses (s : Store) (text : String) : InstallError → Prop where
  | malformed {x : SyntaxError} (h : Text.trim text.toList ≠ []) (hparse : parse text = .error x) :
    Refuses s text (.malformed x)
  | unbound {e : Expr} {x : EvalError} (h : Text.trim text.toList ≠ [])
    (hparse : parse text = .ok e) (hbind : e.FirstFails fieldKind? x) :
    Refuses s text (.unbound x)
  | noSample {e : Expr} (h : Text.trim text.toList ≠ []) (hparse : parse text = .ok e)
    (hbind : ∀ c ∈ e.comparisons, ∀ x, ¬ c.Fails fieldKind? x) (hrecords : s.records = #[]) :
    Refuses s text .noSample

theorem installs_or_refuses (s : Store) (text : String) :
    (∃ filter, Installs s text filter) ∨ ∃ e, Refuses s text e := by
  by_cases hblank : Text.trim text.toList = []
  · exact .inl ⟨none, .blank hblank⟩
  cases hparse : parse text with
  | error x => exact .inr ⟨_, .malformed hblank hparse⟩
  | ok e =>
    cases hbind : e.bind fieldKind? with
    | error x => exact .inr ⟨_, .unbound hblank hparse (Expr.bind_eq_error_iff.1 hbind)⟩
    | ok u =>
      by_cases hrecords : s.records = #[]
      · exact .inr ⟨_, .noSample hblank hparse (Expr.bind_eq_ok_iff.1 hbind) hrecords⟩
      · exact .inl ⟨_, .filter hblank hparse (Expr.bind_eq_ok_iff.1 hbind) hrecords⟩

theorem RecordFilter.compile_eq_ok {text : String} {e : Expr} (hparse : parse text = .ok e)
    (hbind : ∀ c ∈ e.comparisons, ∀ x, ¬ c.Fails fieldKind? x) :
    compile text = .ok ⟨text, e⟩ := by
  rw [compile, hparse]
  simp only [Expr.bind_eq_ok_iff.2 hbind]

/-! ## What becomes of the view -/

namespace View

variable {v v' : View} {s : Store} {text : String} {filter : Option RecordFilter}
  {f : RecordFilter} {e : InstallError}

theorem allBlank_eq_false (h : Text.trim text.toList ≠ []) :
    ¬ Text.allBlank text.toList = true :=
  fun hblank => h ((Text.trim_eq_nil_iff _).2 hblank)

theorem setFilterText_of_compile (h : Text.trim text.toList ≠ [])
    (hf : RecordFilter.compile text = .ok f) :
    v.setFilterText s text = v.setFilter s (some f) := by
  rw [setFilterText, if_neg (allBlank_eq_false h), hf]

/-- A filter that was compiled passes its trial, so it is refused for want of a record alone. -/
theorem setFilter_of_compile (hf : RecordFilter.compile text = .ok f) :
    v.setFilter s (some f)
      = if s.records = #[] then .error .noSample else .ok (v.install s (some f)) := by
  rw [setFilter]
  cases hsample : s.records[0]? with
  | none =>
    have hempty : s.records = #[] := Array.eq_empty_of_size_eq_zero (by simpa using hsample)
    rw [if_pos hempty]
  | some sample =>
    have hne : s.records ≠ #[] := by
      intro hempty
      rw [hempty] at hsample
      cases hsample
    simp only [RecordFilter.check_eq_ok hf sample, if_neg hne]

theorem setFilterText_of_installs (h : Installs s text filter) :
    v.setFilterText s text = .ok (v.install s filter) := by
  cases h with
  | blank hblank =>
    rw [setFilterText, if_pos ((Text.trim_eq_nil_iff _).1 hblank)]
    rfl
  | filter h hparse hbind hrecords =>
    have hf := RecordFilter.compile_eq_ok hparse hbind
    rw [setFilterText_of_compile h hf, setFilter_of_compile hf, if_neg hrecords]

theorem setFilterText_of_refuses (h : Refuses s text e) : v.setFilterText s text = .error e := by
  cases h with
  | malformed h hparse =>
    rw [setFilterText, if_neg (allBlank_eq_false h), RecordFilter.compile, hparse]
    rfl
  | unbound h hparse hbind =>
    rw [setFilterText, if_neg (allBlank_eq_false h), RecordFilter.compile, hparse]
    simp only [Expr.bind_eq_error_iff.2 hbind]
    rfl
  | noSample h hparse hbind hrecords =>
    have hf := RecordFilter.compile_eq_ok hparse hbind
    rw [setFilterText_of_compile h hf, setFilter_of_compile hf, if_pos hrecords]

theorem setFilterText_eq_ok_iff :
    v.setFilterText s text = .ok v' ↔ ∃ filter, Installs s text filter ∧ v' = v.install s filter := by
  constructor
  · intro h
    rcases installs_or_refuses s text with ⟨filter, hinstalls⟩ | ⟨e, hrefuses⟩
    · rw [setFilterText_of_installs hinstalls] at h
      cases h
      exact ⟨filter, hinstalls, rfl⟩
    · cases (setFilterText_of_refuses hrefuses).symm.trans h
  · rintro ⟨filter, hinstalls, rfl⟩
    exact setFilterText_of_installs hinstalls

theorem setFilterText_eq_error_iff : v.setFilterText s text = .error e ↔ Refuses s text e := by
  constructor
  · intro h
    rcases installs_or_refuses s text with ⟨filter, hinstalls⟩ | ⟨e', hrefuses⟩
    · cases (setFilterText_of_installs hinstalls).symm.trans h
    · cases (setFilterText_of_refuses hrefuses).symm.trans h
      exact hrefuses
  · exact setFilterText_of_refuses

/-- What an installation makes of a view. -/
structure Installed (v : View) (s : Store) (new : Option RecordFilter) (v' : View) : Prop where
  /-- The filter is the new one, -/
  filter : v'.filter = new
  /-- the template and the part in a hub are the old ones, -/
  template : v'.template = v.template
  participant : v'.participant = v.participant
  /-- the rows are those of a fresh scan, and all of them are reported, -/
  rows : v'.rows = selectRows new s.records
  generation : v'.rowsGeneration = some s.generation
  reported : v'.reported = v'.rows.size
  /-- there is one notice more, a reset, -/
  notices : v'.notices.toList = v.notices.toList ++ [.reset]
  /-- and no change of the store waits for the view. -/
  missed : (s.changes.deliver v'.cursor).missed = 0
  values : (s.changes.deliver v'.cursor).values = []

theorem installed_install (v : View) (s : Store) (filter : Option RecordFilter) :
    v.Installed s filter (v.install s filter) := by
  let started : View := { v with filter, rowsGeneration := none }
  have hfilter : (v.install s filter).filter = filter := ignoresAccount_filter.reset started s
  have hsteady : (v.install s filter).Steady s := ⟨.install v s filter, inSync_reset _ s⟩
  -- nothing has been sent behind the place of a view in sync
  have hwaits := Broadcast.deliver_behind (List.append_nil s.changes.sent.toList).symm
  rw [Array.length_toList, ← hsteady.inSync.cursor] at hwaits
  exact
    { filter := hfilter
      template := ignoresAccount_template.reset started s
      participant := ignoresAccount_participant.reset started s
      rows := by
        rw [← hsteady.inSync.current_eq, hsteady.valid.rows_current, hfilter]
      generation := hsteady.inSync.fresh
      reported := hsteady.inSync.reported
      notices := notices_install v s filter
      missed := hwaits.1
      values := hwaits.2 }

theorem setTemplate_eq_error_iff {fault : TemplateFault} :
    v.setTemplate text = .error fault ↔ Template.parse text = .error fault := by
  rw [setTemplate]
  cases Template.parse text <;> simp

end View

/-! ## What becomes of the workspace -/

namespace Workspace

variable {w : Workspace} {n : Nat} {v : View}

/-- What a view answers to a text that is to be its filter: nothing, or why it is refused. -/
def filterAnswer (w : Workspace) (n : Nat) (text : String) : Option (Option InstallError) :=
  (w.changeView n fun v s => v.setFilterText s text).map Prod.fst

/-- What a view answers to a text that is to be its template: nothing, or what is wrong with it. -/
def templateAnswer (w : Workspace) (n : Nat) (text : String) : Option (Option TemplateFault) :=
  (w.changeView n fun v _ => v.setTemplate text).map Prod.fst

/-- How view `n` takes texts that are to be its filter or its template. -/
structure Installing (w : Workspace) (n : Nat) (v : View) : Prop where
  /-- A text is refused as a filter just for the reasons that there are, -/
  refuses : ∀ text e, w.filterAnswer n text = some (some e) ↔ Refuses w.store text e
  /-- and taken otherwise. -/
  installs : ∀ text, w.filterAnswer n text = some none ↔ ∃ filter, Installs w.store text filter
  /-- What is refused leaves all as it was. -/
  kept : ∀ text e, Refuses w.store text e → w.apply (.view n (.setFilterText text)) = w
  /-- What is taken is installed in the view, and all else stays as it was. -/
  replaced : ∀ text filter, Installs w.store text filter → ∃ v',
    w.apply (.view n (.setFilterText text)) = w.setView n v' ∧ v.Installed w.store filter v'
  /-- A template is refused if it is not parsed, -/
  refusesTemplate : ∀ text fault,
    w.templateAnswer n text = some (some fault) ↔ Template.parse text = .error fault
  /-- and that too leaves all as it was. -/
  keptTemplate : ∀ text fault, Template.parse text = .error fault →
    w.apply (.view n (.setTemplate text)) = w

theorem changeView_of_ok {ε : Type} {f : View → Store → Except ε View} {v' : View}
    (hv : w.view? n = some v) (h : f v w.store = .ok v') :
    w.changeView n f = some (none, w.setView n v') := by
  rw [changeView, hv]
  simp only [Option.bind_eq_bind, Option.bind_some, h]
  rfl

theorem changeView_of_error {ε : Type} {f : View → Store → Except ε View} {e : ε}
    (hv : w.view? n = some v) (h : f v w.store = .error e) : w.changeView n f = some (some e, w) := by
  rw [changeView, hv]
  simp only [Option.bind_eq_bind, Option.bind_some, h]
  rfl

/-- A change of a view is answered with its error. -/
theorem fst_changeView {ε : Type} {f : View → Store → Except ε View} (hv : w.view? n = some v)
    (answer : Option ε) :
    (w.changeView n f).map Prod.fst = some answer ↔
      match answer with
      | none => ∃ v', f v w.store = .ok v'
      | some e => f v w.store = .error e := by
  cases h : f v w.store with
  | ok v' =>
    rw [changeView_of_ok hv h]
    cases answer <;> simp
  | error e =>
    rw [changeView_of_error hv h]
    cases answer <;> simp

/-- A change of a view that fails leaves all as it was. -/
theorem changed_of_error {ε : Type} {f : View → Store → Except ε View} {e : ε}
    (hv : w.view? n = some v) (h : f v w.store = .error e) :
    ((w.changeView n f).map Prod.snd).getD w = w := by
  rw [changeView_of_error hv h]
  rfl

theorem changed_of_ok {ε : Type} {f : View → Store → Except ε View} {v' : View}
    (hv : w.view? n = some v) (h : f v w.store = .ok v') :
    ((w.changeView n f).map Prod.snd).getD w = w.setView n v' := by
  rw [changeView_of_ok hv h]
  rfl

theorem apply_of_refuses {text : String} {e : InstallError} (hv : w.view? n = some v)
    (h : Refuses w.store text e) : w.apply (.view n (.setFilterText text)) = w :=
  changed_of_error hv (View.setFilterText_of_refuses h)

theorem apply_of_template_error {text : String} {fault : TemplateFault}
    (hv : w.view? n = some v) (h : Template.parse text = .error fault) :
    w.apply (.view n (.setTemplate text)) = w :=
  changed_of_error hv (View.setTemplate_eq_error_iff.2 h)

theorem installing_of_view (hv : w.view? n = some v) : w.Installing n v where
  refuses := by
    intro text e
    exact (fst_changeView hv (some e)).trans View.setFilterText_eq_error_iff
  installs := by
    intro text
    refine (fst_changeView hv none).trans ?_
    simp only [View.setFilterText_eq_ok_iff]
    constructor
    · rintro ⟨v', filter, h, -⟩
      exact ⟨filter, h⟩
    · rintro ⟨filter, h⟩
      exact ⟨v.install w.store filter, filter, h, rfl⟩
  kept := fun text e => apply_of_refuses hv
  replaced := by
    intro text filter h
    exact ⟨v.install w.store filter, changed_of_ok hv (View.setFilterText_of_installs h),
      View.installed_install v w.store filter⟩
  refusesTemplate := by
    intro text fault
    exact (fst_changeView hv (some fault)).trans View.setTemplate_eq_error_iff
  keptTemplate := fun text fault => apply_of_template_error hv

/-! ## Runs -/

/-- Whether the operation is to give a view a filter or a template, and is refused. -/
def refused (w : Workspace) : Operation → Bool
  | .view n (.setFilterText text) => (w.filterAnswer n text).join.isSome
  | .view n (.setTemplate text) => (w.templateAnswer n text).join.isSome
  | _ => false

/-- What is refused leaves all as it was. -/
theorem apply_of_refused {op : Operation} (h : w.refused op = true) : w.apply op = w := by
  obtain ⟨n, request, rfl⟩ : ∃ n request, op = .view n request := by
    cases op with
    | view n request => exact ⟨n, request, rfl⟩
    | _ => cases h
  have hview : ∃ v, w.view? n = some v := by
    rw [← Option.isSome_iff_exists, Option.isSome_iff_ne_none]
    intro hv
    cases request <;> simp [refused, filterAnswer, templateAnswer, changeView, hv] at h
  obtain ⟨v, hv⟩ := hview
  cases request with
  | setFilterText text =>
    obtain ⟨e, he⟩ := Option.isSome_iff_exists.1 h
    have hanswer : w.filterAnswer n text = some (some e) := Option.join_eq_some_iff.1 he
    have hrefuses := (installing_of_view hv).refuses text e
    exact apply_of_refuses hv (hrefuses.1 hanswer)
  | setTemplate text =>
    obtain ⟨fault, hfault⟩ := Option.isSome_iff_exists.1 h
    have hanswer : w.templateAnswer n text = some (some fault) := Option.join_eq_some_iff.1 hfault
    have hrefuses := (installing_of_view hv).refusesTemplate text fault
    exact apply_of_template_error hv (hrefuses.1 hanswer)
  | _ => cases h

/-- The operations of a run without those that are refused. -/
def withoutRefused : Workspace → List Operation → List Operation
  | _, [] => []
  | w, op :: ops =>
    if w.refused op then w.withoutRefused ops else op :: (w.apply op).withoutRefused ops

/-- **A run may as well go without what is refused.** -/
theorem run_withoutRefused (w : Workspace) (ops : List Operation) :
    w.run (w.withoutRefused ops) = w.run ops := by
  induction ops generalizing w with
  | nil => rfl
  | cons op ops ih =>
    rw [withoutRefused, run_cons]
    split
    · next h => rw [ih, apply_of_refused h]
    · rw [run_cons, ih]

/-- **A refused installation changes nothing.** In every run a view refuses a text, as a filter or as
a template, just for the reasons there are, and what it refuses leaves the workspace as it was: any
run from there on may as well go without it. A text that is not refused as a filter is installed. -/
theorem installing_of_run (ops : List Operation) (n : Nat) (v : View)
    (hv : (initial.run ops).view? n = some v) :
    (initial.run ops).Installing n v ∧
      ∀ more, (initial.run ops).run ((initial.run ops).withoutRefused more)
        = (initial.run ops).run more :=
  ⟨installing_of_view hv, run_withoutRefused _⟩

/-- Before there are records a view refuses what cannot be a filter, and what could be one as well.
With records it takes the latter, and a run without the refusals ends in the same place. -/
theorem installing_before_records :
    let w := initial.run [.openView]
    let more : List Operation :=
      [.view 0 (.setFilterText "module eq"), .view 0 (.setFilterText "module contains 5"),
        .view 0 (.setFilterText "module eq \"net\""), .enqueue ⟨"2", "net", 1, "a"⟩, .drain,
        .view 0 (.setFilterText "module eq \"net\""), .view 0 (.setTemplate "\x7b")]
    ∃ v, w.view? 0 = some v ∧ w.Installing 0 v ∧
      (w.withoutRefused more).length = 3 ∧
      w.run (w.withoutRefused more) = w.run more := by
  intro w more
  obtain ⟨hinstalling, hmore⟩ := installing_of_run [.openView] 0 _ rfl
  exact ⟨_, rfl, hinstalling, by decide +kernel, hmore more⟩

end Workspace

end TraceViews
