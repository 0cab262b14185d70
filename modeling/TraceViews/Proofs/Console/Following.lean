import TraceViews.Proofs.Console.Rows
import TraceViews.Proofs.Store.Ledger

/-!
# Following

While the active view is followed, its new rows are printed as they arrive. What is due then is told
without views and notices: from the batches that are drained, the clears, and the templates that are
set (`Console.dueLines`). Main statement: exactly those lines are printed
(`Console.unasked_of_follows`).
-/

namespace TraceViews

namespace Console

/-! ## What is due -/

/-- What happens to the rows of the active view, as long as its filter is the same. -/
inductive Happening where
  | drained (records : List Record)
  | cleared
  | formed (template : Template)

/-- The records that are drained. -/
def Happening.records : Happening → List Record
  | drained records => records
  | _ => []

/-- The lines that are due for view `i` with a filter, if `count` rows are there at first: one for
each drained record that passes, numbered on from the rows there are, in the template of the
moment. -/
def dueLines (i : Nat) (filter : Option RecordFilter) :
    Nat → Template → List Happening → List Line
  | _, _, [] => []
  | count, template, .drained records :: rest =>
    numbered i template count (records.filter (passes filter))
      ++ dueLines i filter (count + (records.filter (passes filter)).length) template rest
  | _, template, .cleared :: rest => dueLines i filter 0 template rest
  | count, _, .formed template :: rest => dueLines i filter count template rest

/-- The records of the lines that are due are the drained ones that pass. -/
theorem rowRecord?_dueLines (i : Nat) (filter : Option RecordFilter) (count : Nat)
    (template : Template) (happenings : List Happening) :
    (dueLines i filter count template happenings).filterMap Line.rowRecord?
      = (happenings.flatMap Happening.records).filter (passes filter) := by
  induction happenings generalizing count template with
  | nil => rfl
  | cons happening rest ih =>
    cases happening with
    | drained records =>
      rw [dueLines, List.filterMap_append, rowRecord?_numbered, ih, List.flatMap_cons,
        List.filter_append]
      rfl
    | cleared => exact ih 0 template
    | formed template => exact ih count template

variable {n : Nat} {c : Console n}

/-- What an input makes happen to the rows of the active view. -/
def happening? (c : Console n) : Input → Option Happening
  | .tick => c.store.drain.1.map fun span => .drained (c.store.drain.2.recordsIn span)
  | .command .clear => some .cleared
  | .command (.template text) => (Template.parse text).toOption.map .formed
  | _ => none

/-- What happens to the rows of the active view in a run. -/
def happenings (c : Console n) : List Input → List Happening
  | [] => []
  | input :: inputs => (c.happening? input).toList ++
      match c.respond input with
      | .ok step => step.console.happenings inputs
      | .error _ => []

/-! ## What is printed -/

/-- Whether rows are asked for. -/
def Input.lists : Input → Bool
  | .command (.list ..) => true
  | _ => false

/-- The rows that are printed without being asked for. -/
def unasked (input : Input) (lines : List Line) : List Line :=
  if input.lists then [] else lines.filter Line.isRow

theorem unasked_of_plain {input : Input} {lines : List Line} (h : Plain lines) :
    unasked input lines = [] := by
  rw [unasked, h.filter_isRow, ite_self]

/-! ## Steps -/

/-- View `i` is the active one, it is followed, and it has the given filter. -/
structure Watches (c : Console n) (i : Fin n) (filter : Option RecordFilter) : Prop where
  following : c.following = true
  active : c.active = i
  filter : (c.view i).filter = filter

variable {i : Fin n} {filter : Option RecordFilter}

/-- The rows in the report of a change. -/
theorem filter_isRow_noting {change : Option Change} {store : Store} (h : c.Settled)
    (hs : c.store.Step change store) (hc : c.Watches i filter) :
    ((List.finRange n).flatMap (c.noting store).share).filter Line.isRow
      = (refreshNotices (shown filter c.store.records).length
          (shown filter store.records).length change.toList).flatMap fun x =>
        (said true true i (c.view i).template (shown filter store.records) x).filter
          Line.isRow := by
  obtain ⟨hfollowing, rfl, rfl⟩ := hc
  have hresets : (c.view c.active).notices.toList.flatMap (fun x =>
      (said true true c.active (c.view c.active).template
        (shown (c.view c.active).filter store.records) x).filter Line.isRow) = [] := by
    refine List.flatMap_eq_nil_iff.2 ?_
    intro x hx
    rw [(h c.active c.active.isLt).notices x hx]
    exact filter_isRow_said ..
  rw [filter_isRow_flatMap_share]
  show ((c.noting store).share c.active).filter Line.isRow = _
  rw [share_noting h hs, List.filter_flatMap, hfollowing, decide_eq_true rfl, List.flatMap_append,
    hresets]
  rfl

/-- The rows in the report of appended records are the appended ones. -/
theorem flatMap_refreshNotices_inserted (i : Nat) (template : Template) (old new : List Record)
    (span : Span) :
    (refreshNotices old.length (old ++ new).length [.inserted span]).flatMap (fun x =>
        (said true true i template (old ++ new) x).filter Line.isRow)
      = numbered i template old.length new := by
  have hnotices : refreshNotices old.length (old ++ new).length [.inserted span]
      = if old.length < (old ++ new).length then [.inserted ⟨old.length, (old ++ new).length⟩]
        else [] := rfl
  rw [hnotices]
  split
  · rw [List.flatMap_singleton, filter_isRow_said]
    show numbered i template old.length
      (((old ++ new).take (old ++ new).length).drop old.length) = _
    rw [List.take_length, List.drop_left]
  · next hle =>
    have hnew : new = [] := by
      rw [← List.length_eq_zero_iff]
      simpa using hle
    rw [hnew]
    rfl

/-- A step that leaves the rows, and their form, as they are. -/
structure Quiet (c : Console n) (i : Fin n) (input : Input) (step : Step n) : Prop where
  happening : c.happening? input = none
  silent : unasked input step.lines = []
  records : step.console.store.records = c.store.records
  template : (step.console.view i).template = (c.view i).template

theorem template_map_takeNotices (views : Vector View n) (s : Store) (hub : Hub) {i : Nat}
    (hi : i < n) : (views.map fun v : View => (v.follow s hub).2.takeNotices.2)[i].template
      = views[i].template := by
  rw [Vector.getElem_map]
  exact template_follow _ s hub

theorem template_setActiveView (c : Console n) {v : View}
    (hv : v.template = c.activeView.template) (i : Fin n) :
    ((c.setActiveView v).view i).template = (c.view i).template := by
  show (c.views.set c.active v)[i].template = _
  rw [Fin.getElem_fin, Vector.getElem_set]
  split
  · next heq =>
    have heq : c.active = i := Fin.ext heq
    rw [hv, ← heq]
    rfl
  · rfl

theorem quiet_select (h : c.Settled) {row : Nat} {step : Step n} (hstep : c.select row = .ok step)
    (i : Fin n) : c.Quiet i (.command (.select row)) step := by
  cases hselect : c.activeView.select c.store c.hub row with
  | error e =>
    rw [h.select_eq, hselect] at hstep
    rw [eq_of_prints hstep]
    exact ⟨rfl, rfl, rfl, rfl⟩
  | ok selected =>
    obtain ⟨timestamp, hub⟩ := selected
    cases (select_eq h hselect).symm.trans hstep
    refine ⟨rfl, ?_, rfl, template_map_takeNotices c.views c.store hub i.isLt⟩
    -- the active view has no notice of an insertion
    show ((List.finRange n).flatMap (share { c with hub })).filter Line.isRow = []
    rw [filter_isRow_flatMap_share, share, List.filter_flatMap, List.flatMap_eq_nil_iff]
    intro x hx
    rw [filter_isRow_said]
    rw [notices_follow, List.mem_append] at hx
    rcases hx with hx | hx
    · rw [h.activeView.notices x hx]
    · obtain ⟨row, -, rfl⟩ := Option.map_eq_some_iff.1 (Option.mem_toList.1 hx)
      rfl

/-- A command other than a listing, a selection or a clear is quiet if it spares the records and the
templates. -/
theorem quiet_of_plain {command : Command} {step : Step n} (hshows : command.shows = false)
    (hstep : c.handle command = .ok step) (hhappening : c.happening? (.command command) = none)
    (hrecords : step.console.store.records = c.store.records)
    (htemplate : (step.console.view i).template = (c.view i).template) :
    c.Quiet i (.command command) step :=
  ⟨hhappening, unasked_of_plain (plain_of_handle hshows hstep), hrecords, htemplate⟩

/-- **A command that makes nothing happen to the rows is quiet.** -/
theorem quiet_of_handle (h : c.Settled) {command : Command} {step : Step n}
    (hhappening : c.happening? (.command command) = none) (hstep : c.handle command = .ok step) :
    c.Quiet i (.command command) step := by
  -- nearly every command prints notices, and spares records and templates
  have hplain : command.shows = false → step.console.store.records = c.store.records →
      (step.console.view i).template = (c.view i).template → c.Quiet i (.command command) step :=
    fun hshows => quiet_of_plain hshows hstep hhappening
  cases command with
  | view j =>
    rw [handle] at hstep
    split at hstep
    · obtain rfl := eq_of_prints hstep
      exact hplain rfl rfl rfl
    · obtain rfl := eq_of_prints hstep
      exact hplain rfl rfl rfl
  | filter text =>
    have hkept : step.console.store = c.store ∧
        (step.console.view i).template = (c.view i).template := by
      rw [handle, Console.filter] at hstep
      split at hstep
      · next v hv =>
        obtain ⟨filter, rfl⟩ := View.exists_install_of_setFilterText hv
        have htemplate : (c.activeView.install c.store filter).template = c.activeView.template :=
          View.ignoresAccount_template.reset _ c.store
        rw [eq_of_prints hstep]
        exact ⟨rfl, template_setActiveView c htemplate i⟩
      · rw [eq_of_prints hstep]
        exact ⟨rfl, rfl⟩
      · rw [eq_of_prints hstep]
        exact ⟨rfl, rfl⟩
    exact hplain rfl (congrArg Store.records hkept.1) hkept.2
  | template text =>
    have hconsole : step.console = c := by
      rw [handle] at hstep
      split at hstep
      · next v hv =>
        -- the template would have been set
        rw [View.setTemplate] at hv
        split at hv
        · cases hv
        · next template hparse =>
          rw [happening?, hparse] at hhappening
          cases hhappening
      · exact console_eq_of_complains hstep
    exact hplain rfl (by rw [hconsole]) (by rw [hconsole])
  | select row => exact quiet_select h hstep i
  | goto timestamp =>
    have hconsole := console_eq_of_goto hstep
    exact hplain rfl (by rw [hconsole]) (by rw [hconsole])
  | list start count =>
    have hconsole := console_eq_of_list h hstep
    exact ⟨rfl, rfl, by rw [hconsole], by rw [hconsole]⟩
  | count =>
    have hconsole := console_eq_of_count h hstep
    exact hplain rfl (by rw [hconsole]) (by rw [hconsole])
  | follow on =>
    obtain rfl := eq_of_prints hstep
    exact hplain rfl rfl rfl
  | pause =>
    obtain rfl := eq_of_prints hstep
    exact hplain rfl rfl rfl
  | resume =>
    obtain rfl := eq_of_prints hstep
    exact hplain rfl rfl rfl
  | clear => cases hhappening
  | help =>
    obtain rfl := eq_of_prints hstep
    exact hplain rfl rfl rfl
  | quit =>
    cases hstep
    exact hplain rfl rfl rfl

/-- What a change of the store prints, and what it leaves behind. -/
theorem rows_of_refresh {change : Option Change} {store : Store} {step : Step n} (h : c.Settled)
    (hs : c.store.Step change store) (hc : c.Watches i filter)
    (hstep : refresh { c with store } = .ok step) :
    step.lines.filter Line.isRow
        = (refreshNotices (shown filter c.store.records).length
            (shown filter store.records).length change.toList).flatMap (fun x =>
          (said true true i (c.view i).template (shown filter store.records) x).filter
            Line.isRow) ∧
      step.console.store = store ∧ (step.console.view i).template = (c.view i).template := by
  cases (refresh_eq h hs).symm.trans hstep
  refine ⟨filter_isRow_noting h hs hc, rfl, ?_⟩
  have hview : (c.noting store).view i = (c.view i).refresh store := Vector.getElem_map ..
  refine (template_map_takeNotices _ store c.hub i.isLt).trans ?_
  show ((c.noting store).view i).template = (c.view i).template
  rw [hview]
  exact View.ignoresAccount_template.refresh (c.view i) store

/-- **A tick prints the rows of the records that it drains.** -/
theorem dueLines_tick {step : Step n} (h : c.Settled) (hc : c.Watches i filter)
    (hstep : c.tick = .ok step) (rest : List Happening) :
    dueLines i filter (shown filter c.store.records).length (c.view i).template
        ((c.happening? .tick).toList ++ rest)
      = step.lines.filter Line.isRow
        ++ dueLines i filter (shown filter step.console.store.records).length
          (step.console.view i).template rest := by
  obtain ⟨hnothing, hsome⟩ := c.store.drain_spec
  cases hqueue : c.store.queue.isEmpty with
  | true =>
    have hdrain := hnothing (by simpa using hqueue)
    rw [tick, hdrain] at hstep
    obtain ⟨hlines, hstore, htemplate⟩ := rows_of_refresh h .stay hc hstep
    have hnotices : ∀ count, refreshNotices count count (Option.toList none) = [] := by
      intro count
      simp [refreshNotices, removal]
    rw [hlines, hstore, htemplate, hnotices, happening?, hdrain]
    rfl
  | false =>
    have hne : c.store.queue.toList ≠ [] := by simpa using hqueue
    obtain ⟨span, s', hdrain, happends, -⟩ := hsome hne
    obtain ⟨hlines, hstore, htemplate⟩ := rows_of_refresh h (.drain hqueue) hc hstep
    have hshown : shown filter s'.records
        = shown filter c.store.records ++ c.store.queue.toList.filter (passes filter) := by
      rw [shown, happends.behind, List.filter_append]
      rfl
    rw [hlines, hstore, htemplate, happening?, hdrain, hshown, Option.toList_some,
      flatMap_refreshNotices_inserted, List.length_append, Option.map_some, Option.toList_some,
      happends.there]
    rfl

/-- A clear prints no rows, and numbers begin anew. -/
theorem dueLines_clear {step : Step n} (h : c.Settled) (hc : c.Watches i filter)
    (hstep : c.handle .clear = .ok step) (rest : List Happening) :
    dueLines i filter (shown filter c.store.records).length (c.view i).template
        (.cleared :: rest)
      = step.lines.filter Line.isRow
        ++ dueLines i filter (shown filter step.console.store.records).length
          (step.console.view i).template rest := by
  obtain ⟨hlines, hstore, htemplate⟩ := rows_of_refresh h .clear hc hstep
  have hrows : step.lines.filter Line.isRow = [] := by
    rw [hlines, List.flatMap_eq_nil_iff]
    intro x hx
    -- the only notice of a clear is a removal
    have hx : x ∈ removal (shown filter c.store.records).length [.cleared c.store.records.size] := by
      simpa [refreshNotices, shown, Store.clear, Store.changed, changeCapacity] using hx
    rw [removal] at hx
    split at hx
    · rw [List.mem_singleton.1 hx]
      exact filter_isRow_said ..
    · cases hx
  rw [hrows, hstore, htemplate]
  rfl

/-- A template that is set prints no rows, and later ones have its form. -/
theorem dueLines_template {text : String} {template : Template} {step : Step n}
    (hc : c.Watches i filter) (htext : Template.parse text = .ok template)
    (hstep : c.handle (.template text) = .ok step) (rest : List Happening) :
    dueLines i filter (shown filter c.store.records).length (c.view i).template
        (.formed template :: rest)
      = step.lines.filter Line.isRow
        ++ dueLines i filter (shown filter step.console.store.records).length
          (step.console.view i).template rest := by
  obtain ⟨-, rfl, -⟩ := hc
  rw [handle, View.setTemplate, htext] at hstep
  rw [eq_of_prints hstep]
  have hview : ∀ v, (c.setActiveView v).view c.active = v := fun v => Vector.getElem_set_self ..
  show _ = dueLines _ _ _ ((c.setActiveView _).view c.active).template rest
  rw [hview]
  rfl

/-- A quiet step prints nothing unasked, and nothing is due. -/
theorem Quiet.dueLines_eq {input : Input} {step : Step n} (h : c.Quiet i input step)
    (filter : Option RecordFilter) (rest : List Happening) :
    dueLines i filter (shown filter c.store.records).length (c.view i).template
        ((c.happening? input).toList ++ rest)
      = unasked input step.lines
        ++ dueLines i filter (shown filter step.console.store.records).length
          (step.console.view i).template rest := by
  rw [h.happening, h.silent, h.records, h.template]
  rfl

/-- **What an input prints unasked is due.** -/
theorem dueLines_respond (h : c.Settled) (hc : c.Watches i filter) {input : Input} {step : Step n}
    (hstep : c.respond input = .ok step) (rest : List Happening) :
    dueLines i filter (shown filter c.store.records).length (c.view i).template
        ((c.happening? input).toList ++ rest)
      = unasked input step.lines
        ++ dueLines i filter (shown filter step.console.store.records).length
          (step.console.view i).template rest := by
  cases input with
  | tick => exact dueLines_tick h hc hstep rest
  | receive records =>
    cases hstep
    have hqueues := Store.OnlyQueues.foldl_enqueue (.refl c.store) records
    have hquiet : c.Quiet i (.receive records) ⟨[], .goOn, c.receive records⟩ :=
      ⟨rfl, rfl, hqueues.records, rfl⟩
    exact hquiet.dueLines_eq filter rest
  | reject e =>
    cases hstep
    have hquiet : c.Quiet i (.reject e) (c.reject e) := ⟨rfl, rfl, rfl, rfl⟩
    exact hquiet.dueLines_eq filter rest
  | start =>
    cases hstep
    have hquiet : c.Quiet i .start ⟨[], .goOn, c.start⟩ := by
      rw [start]
      split <;> exact ⟨rfl, rfl, rfl, rfl⟩
    exact hquiet.dueLines_eq filter rest
  | advance ms now =>
    cases hstep
    obtain ⟨store, hstore, hqueues⟩ := (c.feed.observe now).stillThere_advance ms c.store
    have hquiet : c.Quiet i (.advance ms now) ⟨[], .goOn, c.advance ms now⟩ := by
      simp only [advance, hstore, Option.getD_some]
      exact ⟨rfl, rfl, hqueues.records, rfl⟩
    exact hquiet.dueLines_eq filter rest
  | shutdown =>
    cases hstep
    have hquiet : c.Quiet i .shutdown ⟨[], .goOn, c.shutdown⟩ := ⟨rfl, rfl, rfl, rfl⟩
    exact hquiet.dueLines_eq filter rest
  | command command =>
    cases hhappening : c.happening? (.command command) with
    | none =>
      rw [← hhappening]
      exact (quiet_of_handle h hhappening hstep).dueLines_eq filter rest
    | some happening =>
      cases command with
      | clear =>
        cases hhappening
        exact dueLines_clear h hc hstep rest
      | template text =>
        obtain ⟨template, htext, rfl⟩ := Option.map_eq_some_iff.1 hhappening
        exact dueLines_template hc (eq_ok_of_toOption htext) hstep rest
      | _ => cases hhappening

/-! ## Runs -/

instance (c : Console n) (i : Fin n) (filter : Option RecordFilter) :
    Decidable (c.Watches i filter) :=
  decidable_of_iff (c.following = true ∧ c.active = i ∧ (c.view i).filter = filter)
    ⟨fun ⟨hfollowing, hactive, hfilter⟩ => ⟨hfollowing, hactive, hfilter⟩,
      fun ⟨hfollowing, hactive, hfilter⟩ => ⟨hfollowing, hactive, hfilter⟩⟩

/-- At every point of a run view `i` is the active one, it is followed, and it has the given
filter. -/
def Follows (i : Fin n) (filter : Option RecordFilter) (c : Console n) : List Input → Prop
  | [] => c.Watches i filter
  | input :: inputs => c.Watches i filter ∧
      ∀ step, c.respond input = .ok step → step.console.Follows i filter inputs

instance {α ε : Type} {p : α → Prop} [DecidablePred p] :
    (x : Except ε α) → Decidable (∀ a, x = .ok a → p a)
  | .error _ => isTrue nofun
  | .ok a => decidable_of_iff (p a) ⟨fun h b hb => by cases hb; exact h, fun h => h a rfl⟩

/-- Whether a view is followed in a run can be computed. -/
def decideFollows (i : Fin n) (filter : Option RecordFilter) :
    (inputs : List Input) → (c : Console n) → Decidable (c.Follows i filter inputs)
  | [], c => inferInstanceAs (Decidable (c.Watches i filter))
  | input :: inputs, c =>
    have : DecidablePred fun step : Step n => step.console.Follows i filter inputs :=
      fun step => decideFollows i filter inputs step.console
    inferInstanceAs (Decidable (c.Watches i filter ∧
      ∀ step, c.respond input = .ok step → step.console.Follows i filter inputs))

instance (i : Fin n) (filter : Option RecordFilter) (c : Console n) (inputs : List Input) :
    Decidable (c.Follows i filter inputs) :=
  decideFollows i filter inputs c

/-- The rows that are printed in a run without being asked for. -/
def unaskedAlong (inputs : List Input) (answers : List Answer) : List Line :=
  (inputs.zip answers).flatMap fun (input, a) => unasked input a.lines

theorem Follows.watches {inputs : List Input} (h : c.Follows i filter inputs) :
    c.Watches i filter := by
  cases inputs with
  | nil => exact h
  | cons input inputs => exact h.1

theorem unaskedAlong_run (h : c.Settled) {inputs : List Input}
    (hfollows : c.Follows i filter inputs) :
    ∃ answers c', c.run inputs = .ok (answers, c') ∧
      unaskedAlong inputs answers = dueLines i filter (shown filter c.store.records).length
        (c.view i).template (c.happenings inputs) := by
  induction inputs generalizing c with
  | nil => exact ⟨[], c, rfl, rfl⟩
  | cons input inputs ih =>
    obtain ⟨step, hstep, -, hsettled⟩ := settled_respond h input
    obtain ⟨answers, c', hrun, hprinted⟩ := ih hsettled (hfollows.2 step hstep)
    refine ⟨⟨step.lines, step.flow⟩ :: answers, c', run_cons hstep hrun, ?_⟩
    rw [happenings, hstep, dueLines_respond h hfollows.watches hstep, ← hprinted]
    rfl

/-- **Following prints every new matching row exactly once.** Whatever a console has been through
since it was opened: as long as its active view is followed with one filter, the rows that are
printed without being asked for are those that are due, that is, one for each record that is drained
and passes, in the order of draining. Every row that is printed, asked for or not, is a row of the
active view at that moment. -/
theorem unasked_of_follows (settings : Settings) (hpos : 0 < settings.views) (source : Source)
    (opened c : Console settings.views) (earlier : List Input) (before : List Answer)
    (hopened : make settings hpos source = .ok opened)
    (hearlier : opened.run earlier = .ok (before, c)) (inputs : List Input)
    (h : c.Follows c.active c.activeView.filter inputs) :
    ∃ answers c', c.run inputs = .ok (answers, c') ∧
      unaskedAlong inputs answers = dueLines c.active c.activeView.filter
        (c.activeView.rowCount c.store) c.activeView.template (c.happenings inputs) ∧
      (unaskedAlong inputs answers).filterMap Line.rowRecord?
        = ((c.happenings inputs).flatMap Happening.records).filter
          (passes c.activeView.filter) ∧
      ∀ start input rest answered c₁ step, inputs = start ++ input :: rest →
        c.run start = .ok (answered, c₁) → c₁.respond input = .ok step →
          step.console.ShowsRows step.lines := by
  obtain ⟨answers, reached, hrun, -, hsettled⟩ := settled_run (settled_make hopened) earlier
  cases hearlier.symm.trans hrun
  obtain ⟨answers, c', hrun, hprinted⟩ := unaskedAlong_run hsettled h
  refine ⟨answers, c', hrun, ?_, ?_, ?_⟩
  · rw [hsettled.activeView.steady.valid.rowCount]
    exact hprinted
  · rw [hprinted]
    exact rowRecord?_dueLines ..
  · intro start input rest answered c₁ step _ hstart hstep
    obtain ⟨answers, reached, hrun, -, hsettled⟩ := settled_run hsettled start
    cases hstart.symm.trans hrun
    exact showsRows_respond hsettled hstep

/-- A filtered view is followed through a selection, a clear, another template, a listing and a
text that is no filter. -/
theorem unasked_behind_clear :
    let settings : Settings :=
      { Settings.standard with backlog := 1, filter := some "module eq \"net\"" }
    let source : Source := ⟨⟨fun _ => 0, 0⟩, .counting 1 1, ["net"]⟩
    let up : Record := ⟨"2", "net", 7, "up"⟩
    let full : Record := ⟨"3", "disk", 8, "full"⟩
    let down : Record := ⟨"4", "net", 9, "down"⟩
    let inputs : List Input := [.receive [up, full, down], .tick, .command (.select 1),
      .command .clear, .command (.template "\x7bmessage\x7d"), .receive [up],
      .command (.list 0 5), .tick, .command (.filter (some "nonsense"))]
    ∃ c, make settings (by decide) source = .ok c ∧ c.run [] = .ok ([], c) ∧
      c.Follows c.active c.activeView.filter inputs ∧
      ∃ answers c', c.run inputs = .ok (answers, c') ∧
        unaskedAlong inputs answers = [.row 0 1 up "[7][net       ] : up",
          .row 0 2 down "[9][net       ] : down", .row 0 0 up "up"] := by
  intro settings source up full down inputs
  obtain ⟨c, hc⟩ := exists_of_isOk (x := make settings (by decide) source) (by decide +kernel)
  have hfollows : ((make settings (by decide) source).toOption.all fun c =>
      decide (c.Follows c.active c.activeView.filter inputs)) = true := by
    decide +kernel
  have hdue : ((make settings (by decide) source).toOption.map fun c =>
      dueLines c.active c.activeView.filter (c.activeView.rowCount c.store)
        c.activeView.template (c.happenings inputs))
      = some [.row 0 1 up "[7][net       ] : up", .row 0 2 down "[9][net       ] : down",
        .row 0 0 up "up"] := by
    decide +kernel
  rw [hc] at hfollows hdue
  have hfollows : c.Follows c.active c.activeView.filter inputs := of_decide_eq_true hfollows
  obtain ⟨answers, c', hrun, hprinted, -⟩ := unasked_of_follows settings (by decide) source c c []
    [] hc rfl inputs hfollows
  exact ⟨c, hc, rfl, hfollows, answers, c', hrun, hprinted.trans (Option.some.inj hdue)⟩

end Console

end TraceViews
