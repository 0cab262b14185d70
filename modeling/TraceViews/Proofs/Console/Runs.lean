import TraceViews.Console.Basic
import TraceViews.Proofs.Except
import TraceViews.Proofs.View.Steady

/-!
# Runs of a console

What comes to a console from outside, as data, and what it answers. Between the inputs a console is
settled (`Console.Settled`): its views are steady, and they have heard of all selections. Every
input is answered and leaves the console settled (`Console.settled_respond`), so no run fails.
-/

namespace TraceViews

namespace Console

/-- What comes to a console from outside: records, the passing of time, commands, and lines that are
none. -/
inductive Input where
  | receive (records : List Record)
  | tick
  | command (command : Command)
  | reject (e : CommandError)
  | start
  | advance (ms : Nat) (now : Timestamp)
  | shutdown

/-- The answer to an input: the lines that are printed, and what it means for the run. -/
structure Answer where
  lines : List Line
  flow : Flow

/-- What an input means for the run: `quit` alone ends it, and lines that are no command are told
apart. -/
def Input.flow : Input → Flow
  | .command .quit => .quit
  | .reject _ => .rejected
  | _ => .goOn

variable {n : Nat}

/-- Answers an input. -/
def respond (c : Console n) : Input → Except StoreError (Step n)
  | .receive records => .ok ⟨[], .goOn, c.receive records⟩
  | .tick => c.tick
  | .command command => c.handle command
  | .reject e => .ok (c.reject e)
  | .start => .ok ⟨[], .goOn, c.start⟩
  | .advance ms now => .ok ⟨[], .goOn, c.advance ms now⟩
  | .shutdown => .ok ⟨[], .goOn, c.shutdown⟩

/-- Answers inputs one after the other, whatever the answers mean, up to the first failure. -/
def run (c : Console n) : List Input → Except StoreError (List Answer × Console n)
  | [] => .ok ([], c)
  | input :: inputs => do
    let step ← c.respond input
    let (answers, c) ← step.console.run inputs
    return (⟨step.lines, step.flow⟩ :: answers, c)

theorem run_cons {c c' : Console n} {input : Input} {inputs : List Input} {step : Step n}
    {answers : List Answer} (hstep : c.respond input = .ok step)
    (hrun : step.console.run inputs = .ok (answers, c')) :
    c.run (input :: inputs) = .ok (⟨step.lines, step.flow⟩ :: answers, c') := by
  rw [run, hstep]
  show (step.console.run inputs >>= fun _ => _) = _
  rw [hrun]
  rfl

end Console

/-! ## Settled consoles -/

/-- View `i` of a console between two inputs: it is steady, its notices are resets, and it has heard
of all selections. -/
structure View.Settled (v : View) (s : Store) (hub : Hub) (i : Nat) : Prop where
  steady : v.Steady s
  notices : ∀ x ∈ v.notices.toList, x = .reset
  participant : ∃ p, v.participant = some p ∧ p.id = i ∧ p.cursor = hub.selections.sent.size

/-- View `i` of a console before a report: its notices speak of rows that are there. -/
structure View.Reportable (v : View) (s : Store) (i : Nat) : Prop where
  steady : v.Steady s
  notices : ∀ x ∈ v.notices.toList, x.Within v.reported
  participant : ∃ p, v.participant = some p ∧ p.id = i

namespace View

variable {v v' : View} {s s' : Store} {hub : Hub} {i : Nat}

theorem Settled.reportable (h : v.Settled s hub i) : v.Reportable s i where
  steady := h.steady
  notices := by
    intro x hx
    rw [h.notices x hx]
    trivial
  participant := by
    obtain ⟨p, hp, hid, -⟩ := h.participant
    exact ⟨p, hp, hid⟩

/-- A view that takes stock of its rows adds to its notices, and stays where it is in its hub. -/
theorem Settled.of_steady (h : v.Settled s hub i) (hsteady : v'.Steady s')
    (hnotices : ∀ x ∈ v'.notices.toList, x ∈ v.notices.toList ∨ x = .reset)
    (hparticipant : v'.participant = v.participant) : v'.Settled s' hub i where
  steady := hsteady
  notices := fun x hx => (hnotices x hx).elim (h.notices x) id
  participant := hparticipant ▸ h.participant

theorem Settled.install (h : v.Settled s hub i) (filter : Option RecordFilter) :
    (v.install s filter).Settled s hub i := by
  refine h.of_steady (.syncs h.steady.valid (.install filter)) ?_
    (ignoresAccount_participant.reset _ s)
  intro x hx
  rw [notices_install, List.mem_append] at hx
  exact hx.imp_right List.mem_singleton.1

theorem Settled.setTemplate (h : v.Settled s hub i) {text : String}
    (ht : v.setTemplate text = .ok v') : v'.Settled s hub i := by
  have hsteady := h.steady.keeps (.setTemplate ht)
  rw [View.setTemplate] at ht
  split at ht
  · cases ht
  · cases ht
    refine h.of_steady hsteady ?_ rfl
    intro x hx
    rw [notify, Array.toList_push, List.mem_append] at hx
    exact hx.imp_right List.mem_singleton.1

/-- A change of the store, and the refresh that follows it. -/
theorem Settled.refresh (h : v.Settled s hub i) {change : Option Change} (hs : s.Step change s') :
    (v.refresh s').Reportable s' i where
  steady := .syncs (h.steady.valid.step hs) .refresh
  notices := by
    intro x hx
    rcases within_of_mem_refresh hx with hx | hx
    · rw [h.notices x hx]
      trivial
    · exact hx
  participant := by
    obtain ⟨p, hp, hid, -⟩ := h.participant
    exact ⟨p, (ignoresAccount_participant.refresh v s').trans hp, hid⟩

end View

namespace Console

variable {n : Nat} {c : Console n}

/-- A console between two inputs. -/
def Settled (c : Console n) : Prop :=
  ∀ (i : Nat) (hi : i < n), c.views[i].Settled c.store c.hub i

/-! ## Reports -/

/-- Rows that are there can be printed. -/
theorem exists_rowLines {s : Store} {v : View} {stop : Nat} (h : stop ≤ v.rowCount s)
    (i start : Nat) : ∃ lines, rowLines s i v start stop = .ok lines := by
  refine exists_mapM_eq_ok ?_
  intro row hrow
  have hlt : row < v.rowCount s := by
    have := List.mem_range'_1.1 hrow
    omega
  obtain ⟨r, hr⟩ := View.exists_record_of_lt hlt
  rw [hr, View.data_of_record hr]
  exact ⟨_, rfl⟩

theorem exists_noticeLines {s : Store} {v : View} {x : Notice} (h : x.Within (v.rowCount s))
    (active following : Bool) (i : Nat) :
    ∃ lines, noticeLines s active following i v x = .ok lines := by
  cases x with
  | inserted span =>
    rw [noticeLines]
    split
    · exact exists_rowLines h i span.start
    · exact ⟨_, rfl⟩
  | removed span =>
    rw [noticeLines]
    split <;> exact ⟨_, rfl⟩
  | reset =>
    rw [noticeLines]
    split <;> exact ⟨_, rfl⟩
  | scrollTo row =>
    obtain ⟨r, hr⟩ := View.exists_record_of_lt (show row < v.rowCount s from h)
    rw [noticeLines, hr]
    exact ⟨_, rfl⟩

theorem reportView_of_mapM {s : Store} {hub : Hub} {v : View} {i : Nat} {active following : Bool}
    {lines : List (List Line)} (hsync : (v.follow s hub).2.takeNotices.2.InSync s)
    (h : (v.follow s hub).2.notices.toList.mapM (noticeLines s active following i
      (v.follow s hub).2.takeNotices.2) = .ok lines) :
    reportView s hub active following i v
      = .ok (lines.flatten, (v.follow s hub).2.takeNotices.2) := by
  have hbind : reportView s hub active following i v
      = (v.follow s hub).2.notices.toList.mapM (noticeLines s active following i
          (v.follow s hub).2.takeNotices.2) >>= fun lines =>
        .ok (lines.flatten,
          if (v.follow s hub).2.notices.toList.any (readsRows active following) then
            (v.follow s hub).2.takeNotices.2.current s
          else (v.follow s hub).2.takeNotices.2) := rfl
  rw [hbind, h, hsync.current_eq, ite_self]
  rfl

/-- **A view can be reported**, and is settled afterwards. -/
theorem exists_reportView {s : Store} {v : View} {i : Nat} (h : v.Reportable s i) (hub : Hub)
    (active following : Bool) :
    ∃ report, reportView s hub active following i v = .ok report ∧
      report.2.Settled s hub i := by
  obtain ⟨p, hp, hid⟩ := h.participant
  obtain ⟨notices, hfollow, hwithin⟩ := h.steady.inSync.follow_spec hub hp
  have hsteady : (v.follow s hub).2.takeNotices.2.Steady s :=
    (h.steady.keeps (.follow v hub)).keeps (.of_eq rfl rfl rfl rfl rfl)
  -- the rows are still those that the notices were made with
  have hcount : (v.follow s hub).2.takeNotices.2.rowCount s = v.rowCount s := by
    rw [hfollow]
    exact View.rowCount_congr rfl rfl rfl
  have hlines : ∃ lines, (v.follow s hub).2.notices.toList.mapM (noticeLines s active following i
      (v.follow s hub).2.takeNotices.2) = .ok lines := by
    refine exists_mapM_eq_ok ?_
    intro x hx
    rw [hfollow] at hx
    refine exists_noticeLines ?_ active following i
    rw [hcount]
    rcases hwithin x hx with hx | hx
    · rw [h.steady.inSync.rowCount_eq]
      exact h.notices x hx
    · exact hx
  obtain ⟨lines, hlines⟩ := hlines
  refine ⟨_, reportView_of_mapM hsteady.inSync hlines, hsteady, nofun, ?_⟩
  rw [hfollow]
  exact ⟨_, rfl, hid, rfl⟩

/-- Reports of all views are a report of the console. -/
theorem report_of_reportView {reports : Vector (List Line × View) n}
    (h : ∀ (i : Nat) (hi : i < n), reportView c.store c.hub (c.active = ⟨i, hi⟩) c.following i
      c.views[i] = .ok reports[i]) :
    c.report = .ok (reports.toList.flatMap Prod.fst, { c with views := reports.map Prod.snd }) := by
  have hreports : (c.views.mapFinIdx fun i v hi =>
      reportView c.store c.hub (c.active = ⟨i, hi⟩) c.following i v) = reports.map .ok := by
    refine Vector.ext ?_
    intro i hi
    rw [Vector.getElem_mapFinIdx, Vector.getElem_map]
    exact h i hi
  have hmapM : (reports.map .ok).mapM id = (.ok reports : Except StoreError _) := by
    rw [Vector.mapM_map]
    exact (Vector.mapM_pure id).trans (congrArg _ (Vector.map_id reports))
  rw [report, hreports, hmapM]
  rfl

theorem exists_vector {α : Type} {p : (i : Nat) → i < n → α → Prop}
    (h : ∀ (i : Nat) (hi : i < n), ∃ a, p i hi a) :
    ∃ as : Vector α n, ∀ (i : Nat) (hi : i < n), p i hi as[i] := by
  refine ⟨.ofFn fun i => (h i i.isLt).choose, ?_⟩
  intro i hi
  rw [Vector.getElem_ofFn]
  exact (h i hi).choose_spec

/-- **A console can be reported**, and is settled afterwards. -/
theorem exists_report
    (h : ∀ (i : Nat) (hi : i < n), c.views[i].Reportable c.store i) :
    ∃ lines views, c.report = .ok (lines, { c with views }) ∧
      Settled { c with views } := by
  obtain ⟨reports, hreports⟩ := exists_vector fun i hi =>
    exists_reportView (h i hi) c.hub (c.active = ⟨i, hi⟩) c.following
  refine ⟨_, _, report_of_reportView fun i hi => (hreports i hi).1, ?_⟩
  intro i hi
  show (reports.map Prod.snd)[i].Settled c.store c.hub i
  rw [Vector.getElem_map]
  exact (hreports i hi).2

end Console

/-! ## Queued records -/

/-- What is queued is not seen before the next drain. -/
structure Store.OnlyQueues (s s' : Store) : Prop where
  records : s'.records = s.records
  generation : s'.generation = s.generation
  changes : s'.changes = s.changes

namespace Store.OnlyQueues

variable {s s' : Store}

theorem refl (s : Store) : s.OnlyQueues s := ⟨rfl, rfl, rfl⟩

theorem enqueue (h : s.OnlyQueues s') (r : Record) : s.OnlyQueues (s'.enqueue r) :=
  ⟨h.records, h.generation, h.changes⟩

theorem foldl_enqueue (h : s.OnlyQueues s') (records : List Record) :
    s.OnlyQueues (records.foldl Store.enqueue s') := by
  induction records generalizing s' with
  | nil => exact h
  | cons r records ih => exact ih (h.enqueue r)

end Store.OnlyQueues

/-- The store is there, and has only queued records. -/
def Store.StillThere (s : Store) (store : Option Store) : Prop :=
  ∃ s', store = some s' ∧ s.OnlyQueues s'

theorem Feed.Task.stillThere_act {s : Store} {store : Option Store} (h : s.StillThere store)
    (paused : Bool) (task : Task) (produced : Nat) :
    s.StillThere (task.act paused produced store).2.2 := by
  obtain ⟨s', rfl, hqueues⟩ := h
  cases paused with
  | true => exact ⟨s', rfl, hqueues⟩
  | false => exact ⟨_, rfl, hqueues.enqueue _⟩

/-- A task only queues records. -/
theorem Feed.Task.stillThere_run {s : Store} {store : Option Store} (h : s.StillThere store)
    (pace : Pace) (paused : Bool) (stop : Nat) (task : Task) (produced : Nat) :
    s.StillThere (run pace paused stop task produced store).2.2 := by
  fun_induction run pace paused stop task produced store with
  | case1 task produced store hlt => exact h
  | case2 task produced store hle x hnone => exact stillThere_act h paused task produced
  | case3 task produced store hle x next hnext ih =>
    exact ih (stillThere_act h paused task produced)

/-- A feed only queues records. -/
theorem Feed.stillThere_advance (f : Feed) (ms : Nat) (s : Store) :
    s.StillThere (f.advance ms (some s)).2 := by
  have h : s.StillThere (some s) := ⟨s, rfl, .refl s⟩
  rw [advance]
  split
  · exact h
  · exact Feed.Task.stillThere_run h ..

namespace Console

variable {n : Nat} {c : Console n}

theorem Settled.of_onlyQueues (h : c.Settled) {store : Store} (hs : c.store.OnlyQueues store) :
    Settled { c with store } := by
  intro i hi
  obtain ⟨hsteady, hnotices, hparticipant⟩ := h i hi
  exact ⟨hsteady.of_store hs.records hs.generation hs.changes, hnotices, hparticipant⟩

theorem Settled.start (h : c.Settled) : c.start.Settled := by
  rw [Console.start]
  split
  · exact h
  · exact h

theorem Settled.advance (h : c.Settled) (ms : Nat) (now : Timestamp) :
    (c.advance ms now).Settled := by
  obtain ⟨store, hstore, hqueues⟩ := (c.feed.observe now).stillThere_advance ms c.store
  simp only [Console.advance, hstore, Option.getD_some]
  exact h.of_onlyQueues hqueues

/-! ## Inputs -/

/-- What nearly every input gives: an answer after which the run goes on, with a settled console. -/
def GoesOn (result : Except StoreError (Step n)) : Prop :=
  ∃ step, result = .ok step ∧ step.flow = .goOn ∧ step.console.Settled

theorem goesOn_prints (h : c.Settled) (lines : List Line) : GoesOn (c.prints lines) :=
  ⟨⟨lines, .goOn, c⟩, rfl, rfl, h⟩

theorem Settled.setActiveView (h : c.Settled) {v : View}
    (hv : v.Settled c.store c.hub c.active) : (c.setActiveView v).Settled := by
  intro i hi
  show (c.views.set c.active v)[i].Settled c.store c.hub i
  rw [Vector.getElem_set]
  split
  · next heq =>
    rw [← heq]
    exact hv
  · exact h i hi

theorem Settled.activeView (h : c.Settled) : c.activeView.Settled c.store c.hub c.active :=
  h c.active c.active.isLt

theorem goesOn_refresh (h : c.Settled) {change : Option Change} {store : Store}
    (hs : c.store.Step change store) : GoesOn (refresh { c with store }) := by
  obtain ⟨lines, views, hreport, hsettled⟩ := exists_report
    (c := { c with store, views := c.views.map (·.refresh store) }) <| by
      intro i hi
      show View.Reportable (c.views.map (·.refresh store))[i] store i
      rw [Vector.getElem_map]
      exact (h i hi).refresh hs
  refine ⟨⟨lines, .goOn, _⟩, ?_, rfl, hsettled⟩
  rw [refresh, hreport]
  rfl

theorem exists_step_drain (s : Store) : ∃ change, s.Step change s.drain.2 := by
  cases h : s.queue.isEmpty with
  | false => exact ⟨_, .drain h⟩
  | true =>
    rw [Store.drain, if_pos h]
    exact ⟨none, .stay⟩

theorem goesOn_tick (h : c.Settled) : GoesOn c.tick := by
  obtain ⟨change, hs⟩ := exists_step_drain c.store
  exact goesOn_refresh h hs

theorem goesOn_filter (h : c.Settled) (text : String) : GoesOn (c.filter text) := by
  rw [filter]
  split
  · next v hv =>
    obtain ⟨filter, rfl⟩ := View.exists_install_of_setFilterText hv
    exact goesOn_prints (h.setActiveView (h.activeView.install filter)) _
  · exact goesOn_prints h _
  · exact goesOn_prints h _

theorem goesOn_template (h : c.Settled) (text : String) : GoesOn (c.handle (.template text)) := by
  rw [handle]
  split
  · next v hv => exact goesOn_prints (h.setActiveView (h.activeView.setTemplate hv)) _
  · exact goesOn_prints h _


theorem goesOn_goto (h : c.Settled) (timestamp : Timestamp) : GoesOn (c.goto timestamp) := by
  rw [goto]
  split
  · exact goesOn_prints h _
  · next index hindex =>
    have hlt : index < c.store.records.size := lt_of_nearestIndex hindex
    rw [Store.recordAt, Array.getElem?_eq_getElem hlt]
    exact goesOn_prints h _

/-- Bringing the views of a settled console up to date changes nothing. -/
theorem Settled.map_current (h : c.Settled) : c.views.map (·.current c.store) = c.views := by
  refine Vector.ext ?_
  intro i hi
  rw [Vector.getElem_map]
  exact (h i hi).steady.inSync.current_eq

theorem Settled.activeView_current (h : c.Settled) :
    c.activeView.current c.store = c.activeView :=
  h.activeView.steady.inSync.current_eq

theorem setActiveView_activeView (c : Console n) : c.setActiveView c.activeView = c :=
  congrArg (fun views => { c with views }) (Vector.set_getElem_self c.active.isLt)

/-- A selection on a settled console. -/
theorem Settled.select_eq (h : c.Settled) (row : Nat) :
    c.select row = match c.activeView.select c.store c.hub row with
      | .error e => c.complains e.message
      | .ok (timestamp, hub) => (do
        let (lines, console) ← report { c with hub }
        console.prints (.notice (aboutView c.active ("selected row " ++ Text.showNat row ++ " at "
          ++ Text.showInt64 timestamp)) :: lines)) := by
  rcases hselect : c.activeView.select c.store c.hub row with e | ⟨timestamp, hub⟩ <;>
    simp only [select, h.activeView_current, setActiveView_activeView, hselect]

theorem goesOn_select (h : c.Settled) (row : Nat) : GoesOn (c.select row) := by
  rw [h.select_eq]
  split
  · exact goesOn_prints h _
  · next timestamp hub hselect =>
    obtain ⟨lines, views, hreport, hsettled⟩ :=
      exists_report (c := { c with hub }) fun i hi => (h i hi).reportable
    rw [hreport]
    exact goesOn_prints hsettled _

theorem goesOn_list (h : c.Settled) (start count : Nat) : GoesOn (c.list start count) := by
  rw [list]
  simp only [h.activeView_current, setActiveView_activeView]
  split
  · obtain ⟨lines, hlines⟩ := exists_rowLines
      (Nat.min_le_left (c.activeView.rowCount c.store) (start + count)) c.active start
    rw [hlines]
    exact goesOn_prints h lines
  · exact goesOn_prints h _

theorem goesOn_count (h : c.Settled) : GoesOn c.count := by
  simp only [count, h.map_current]
  exact goesOn_prints h _

/-- **Every input is answered**, with the flow that it stands for, and leaves the console
settled. -/
theorem settled_respond (h : c.Settled) (input : Input) :
    ∃ step, c.respond input = .ok step ∧ step.flow = input.flow ∧ step.console.Settled := by
  cases input with
  | receive records =>
    exact ⟨_, rfl, rfl, h.of_onlyQueues (.foldl_enqueue (.refl c.store) records)⟩
  | tick => exact goesOn_tick h
  | reject e => exact ⟨_, rfl, rfl, h⟩
  | start => exact ⟨_, rfl, rfl, h.start⟩
  | advance ms now => exact ⟨_, rfl, rfl, h.advance ms now⟩
  | shutdown => exact ⟨_, rfl, rfl, h⟩
  | command command =>
    cases command with
    | view i =>
      rw [respond, handle]
      split
      · next hi => exact goesOn_prints (c := { c with active := ⟨i, hi⟩ }) h _
      · exact goesOn_prints h _
    | filter text => exact goesOn_filter h _
    | template text => exact goesOn_template h text
    | select row => exact goesOn_select h row
    | goto timestamp => exact goesOn_goto h timestamp
    | list start count => exact goesOn_list h start count
    | count => exact goesOn_count h
    | follow on => exact goesOn_prints (c := { c with following := on }) h _
    | pause => exact goesOn_prints (c := { c with feed := c.feed.pause }) h _
    | resume => exact goesOn_prints (c := { c with feed := c.feed.resume }) h _
    | clear => exact goesOn_refresh h .clear
    | help => exact goesOn_prints h _
    | quit => exact ⟨_, rfl, rfl, h⟩

end Console

end TraceViews
