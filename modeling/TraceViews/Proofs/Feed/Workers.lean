import TraceViews.Proofs.Feed.Crew

/-!
# The workers of a crew

What a worker does, it does for itself: what holds of it from its beginning on, and outlasts what it
does, holds of every worker in every run (`Crew.Lasting.run`). So each worker stamps its records
with the readings of its own clock. A worker whose token is cancelled does nothing any more
(`Crew.getElem?_run_of_lt`). Where the delay is fixed, a worker acts at the end of equal slots.
-/

namespace TraceViews

namespace Crew

variable {c c' : Crew}

/-! ## What lasts -/

/-- What holds of a worker at a time, from its beginning on, whatever it does. -/
structure Lasting (pace : Pace) (p : Nat → Worker → Prop) : Prop where
  begins : ∀ now source token, p now (.start pace now source token)
  waits : ∀ now w, p now w → p (now + 1) w
  skips : ∀ now w, w.task.due = now → p now w → p now (w.goOn pace w.task.due w.task.source)
  leaves : ∀ now w, p now w → p now { w with ended := true }
  sends : ∀ now w, w.task.due = now → p now w →
    p now (.goOn pace w.task.due w.task.source.next.2
      { w with sent := w.sent ++ [w.task.source.next.1] })

section Lasting

variable {p : Nat → Worker → Prop} (hp : Lasting c.pace p)
include hp

theorem Lasting.beat (hb : c.Beat c') (h : ∀ w ∈ c.workers, p c.now w) :
    c'.pace = c.pace ∧ ∀ w ∈ c'.workers, p c'.now w := by
  have hwaits : ∀ w ∈ c.workers, p (c.now + 1) w := fun w hw => hp.waits c.now w (h w hw)
  have hacts : ∀ {earlier w w'}, c.HasDuty earlier w → (p (c.now + 1) w → p (c.now + 1) w') →
      ∀ u ∈ earlier ++ [w'], p (c.now + 1) u := by
    intro earlier w w' hduty hw'
    rw [hduty.workers, List.forall_mem_append, List.forall_mem_singleton] at hwaits
    rw [List.forall_mem_append, List.forall_mem_singleton]
    exact ⟨hwaits.1, hw' hwaits.2⟩
  cases hb with
  | rest hrest => exact ⟨rfl, hwaits⟩
  | skip hduty hdue hpaused => exact ⟨rfl, hacts hduty (hp.skips _ _ hdue)⟩
  | leave hduty hdue hpaused hstore => exact ⟨rfl, hacts hduty (hp.leaves _ _)⟩
  | send hduty hdue hpaused hstore => exact ⟨rfl, hacts hduty (hp.sends _ _ hdue)⟩

theorem Lasting.pass (hc : c.Tidy) (h : ∀ w ∈ c.workers, p c.now w) (ms : Nat) :
    (pass ms c).pace = c.pace ∧ ∀ w ∈ (pass ms c).workers, p (pass ms c).now w := by
  induction ms generalizing c with
  | zero => exact ⟨rfl, h⟩
  | succ ms ih =>
    obtain ⟨hpace, hnext⟩ := hp.beat (beat_tick hc) h
    obtain ⟨hpaces, hlast⟩ := ih (hpace ▸ hp) hc.tick hnext
    exact ⟨hpaces.trans hpace, hlast⟩

theorem Lasting.apply (hc : c.Tidy) (h : ∀ w ∈ c.workers, p c.now w) (o : Feed.Order) :
    (c.apply o).pace = c.pace ∧ ∀ w ∈ (c.apply o).workers, p (c.apply o).now w := by
  cases o with
  | advance ms => exact hp.pass hc h ms
  | start source =>
    refine ⟨rfl, ?_⟩
    rw [Crew.apply, begin, List.forall_mem_append, List.forall_mem_singleton]
    exact ⟨h, hp.begins c.now source (c.token + 1)⟩
  | _ => exact ⟨rfl, h⟩

/-- **What lasts holds of every worker** in a run. -/
theorem Lasting.run (hc : c.Tidy) (h : ∀ w ∈ c.workers, p c.now w) (orders : List Feed.Order) :
    (c.run orders).pace = c.pace ∧ ∀ w ∈ (c.run orders).workers, p (c.run orders).now w := by
  induction orders generalizing c with
  | nil => exact ⟨rfl, h⟩
  | cons o orders ih =>
    obtain ⟨hpace, hnext⟩ := hp.apply hc h o
    obtain ⟨hpaces, hlast⟩ := ih (hpace ▸ hp) (hc.apply o) hnext
    exact ⟨hpaces.trans hpace, hlast⟩

end Lasting

/-! ## Stamps -/

/-- A worker has stamped its records with the first readings of its clock, and its clock goes on with
the next one. -/
def Stamps (w : Worker) : Prop :=
  ∀ n, w.origin.clock.readings (w.sent.length + n)
    = w.sent.map Record.timestamp ++ w.task.source.clock.readings n

theorem lasting_stamps (pace : Pace) : Lasting pace fun _ => Stamps where
  begins := by
    intro now source token n
    rw [Worker.start, Worker.clock_goOn]
    exact congrArg source.clock.readings (Nat.zero_add n)
  waits := fun now w h => h
  skips := by
    intro now w hdue h n
    rw [Worker.clock_goOn]
    exact h n
  leaves := fun now w h => h
  sends := by
    intro now w hdue h n
    have hread := h (n + 1)
    show w.origin.clock.readings ((w.sent ++ [w.task.source.next.1]).length + n)
      = (w.sent ++ [w.task.source.next.1]).map Record.timestamp ++ _
    rw [Worker.clock_goOn, List.length_append, List.length_singleton, List.map_append,
      List.append_assoc, Nat.add_assoc, Nat.add_comm 1 n, hread]
    rfl

/-! ## Slots -/

/-- From `since` on, slots of `d` milliseconds follow each other; the end of the one that `now` lies
in. -/
def nextSlot (d since now : Nat) : Nat := since + ((now - since) / d + 1) * d

theorem nextSlot_eq {d since now k : Nat} (hle : since + k * d ≤ now)
    (hlt : now < since + (k + 1) * d) : nextSlot d since now = since + (k + 1) * d := by
  have hk : (now - since) / d = k :=
    Nat.div_eq_of_lt_le (Nat.le_sub_of_add_le' hle) (Nat.sub_lt_left_of_lt_add (by omega) hlt)
  rw [nextSlot, hk]

/-- A worker waits for the end of one of its slots, which has begun. -/
def OnSlots (d now : Nat) (w : Worker) : Prop :=
  ∃ k, w.since + k * d ≤ now ∧ w.task.due = w.since + (k + 1) * d

theorem OnSlots.due_eq {d now : Nat} {w : Worker} (h : OnSlots d now w) (hlt : now < w.task.due) :
    w.task.due = nextSlot d w.since now := by
  obtain ⟨k, hle, hdue⟩ := h
  rw [nextSlot_eq hle (hdue ▸ hlt), hdue]

section Fixed

variable {pace : Pace} (hfixed : pace.longest ≤ pace.shortest) (hpos : 0 < pace.shortest)
include hfixed hpos

/-- Where the delay is fixed, a worker that goes on waits for its end. -/
theorem goOn_eq (now : Nat) (source : Source) (w : Worker) :
    w.goOn pace now source = { w with task := ⟨source, now + pace.shortest⟩, ended := false } :=
  w.goOn_of_wait (Feed.Task.wait_eq hfixed hpos now source)

/-- At the end of a slot the next one begins. -/
theorem OnSlots.goOn {now : Nat} {w : Worker} (h : OnSlots pace.shortest now w)
    (hnow : w.task.due = now) (source : Source) (sent : List Record) :
    OnSlots pace.shortest now (.goOn pace w.task.due source { w with sent }) := by
  obtain ⟨k, -, hdue⟩ := h
  rw [goOn_eq hfixed hpos]
  refine ⟨k + 1, Nat.le_of_eq (hdue.symm.trans hnow), ?_⟩
  rw [hdue, Nat.add_assoc, ← Nat.succ_mul]

theorem lasting_onSlots : Lasting pace (OnSlots pace.shortest) where
  begins := by
    intro now source token
    rw [Worker.start, goOn_eq hfixed hpos]
    exact ⟨0, by simp, by simp⟩
  waits := fun now w ⟨k, hle, hdue⟩ => ⟨k, Nat.le_succ_of_le hle, hdue⟩
  skips := fun now w hnow h => h.goOn hfixed hpos hnow w.task.source w.sent
  leaves := fun now w h => h
  sends := fun now w hnow h => h.goOn hfixed hpos hnow _ _

end Fixed

/-! ## Cancelled tokens -/

theorem Beat.getElem?_of_lt (hb : c.Beat c') {i : Nat} {w : Worker} (hw : c.workers[i]? = some w)
    (hlt : w.token < c.token) : c'.token = c.token ∧ c'.workers[i]? = some w := by
  have hother : ∀ {earlier u u'}, c.HasDuty earlier u → (earlier ++ [u'])[i]? = some w := by
    intro earlier u u' hduty
    rw [hduty.workers] at hw
    have hi : i < earlier.length := by
      refine Nat.lt_of_not_le fun hle => ?_
      -- the worker on duty is another one
      rw [List.getElem?_append_right hle, List.getElem?_singleton,
        Option.ite_none_right_eq_some] at hw
      cases hw.2
      cases (polls_of_lt hlt).symm.trans hduty.polls
    rw [List.getElem?_append_left hi] at hw ⊢
    exact hw
  cases hb with
  | rest hrest => exact ⟨rfl, hw⟩
  | skip hduty hdue hpaused => exact ⟨rfl, hother hduty⟩
  | leave hduty hdue hpaused hstore => exact ⟨rfl, hother hduty⟩
  | send hduty hdue hpaused hstore => exact ⟨rfl, hother hduty⟩

theorem getElem?_pass_of_lt (hc : c.Tidy) {i : Nat} {w : Worker} (hw : c.workers[i]? = some w)
    (hlt : w.token < c.token) (ms : Nat) :
    (pass ms c).token = c.token ∧ (pass ms c).workers[i]? = some w := by
  induction ms generalizing c with
  | zero => exact ⟨rfl, hw⟩
  | succ ms ih =>
    obtain ⟨htoken, hnext⟩ := (beat_tick hc).getElem?_of_lt hw hlt
    obtain ⟨htokens, hlast⟩ := ih hc.tick hnext (htoken ▸ hlt)
    exact ⟨htokens.trans htoken, hlast⟩

/-- A worker that is begun comes behind the others. -/
theorem getElem?_begin {i : Nat} {w : Worker} (hw : c.workers[i]? = some w) (source : Source) :
    (c.begin source).workers[i]? = some w := by
  rw [begin]
  exact (List.getElem?_append_left (List.getElem?_eq_some_iff.1 hw).1).trans hw

theorem getElem?_apply_of_lt (hc : c.Tidy) {i : Nat} {w : Worker} (hw : c.workers[i]? = some w)
    (hlt : w.token < c.token) (o : Feed.Order) :
    w.token < (c.apply o).token ∧ (c.apply o).workers[i]? = some w := by
  cases o with
  | advance ms =>
    obtain ⟨htoken, hnext⟩ := getElem?_pass_of_lt hc hw hlt ms
    exact ⟨Nat.lt_of_lt_of_eq hlt htoken.symm, hnext⟩
  | start source => exact ⟨Nat.lt_succ_of_lt hlt, getElem?_begin (c := c.cancel) hw source⟩
  | stop => exact ⟨Nat.lt_succ_of_lt hlt, hw⟩
  | _ => exact ⟨hlt, hw⟩

/-- **A worker whose token is cancelled does nothing any more.** -/
theorem getElem?_run_of_lt (hc : c.Tidy) {i : Nat} {w : Worker} (hw : c.workers[i]? = some w)
    (hlt : w.token < c.token) (orders : List Feed.Order) : (c.run orders).workers[i]? = some w := by
  induction orders generalizing c with
  | nil => exact hw
  | cons o orders ih =>
    obtain ⟨hlt, hnext⟩ := getElem?_apply_of_lt hc hw hlt o
    exact ih (hc.apply o) hnext hlt

/-- The orders that cancel the token of the worker on duty. -/
def Cancels (o : Feed.Order) : Prop := o = .stop ∨ ∃ source, o = .start source

/-- A worker that is stopped or replaced has its token cancelled. -/
theorem getElem?_of_cancels (hc : c.Tidy) {i : Nat} {w : Worker} (hw : c.workers[i]? = some w)
    {o : Feed.Order} (ho : Cancels o) :
    w.token < (c.apply o).token ∧ (c.apply o).workers[i]? = some w := by
  have hlt := hc.lt_cancel (List.mem_of_getElem? hw)
  rcases ho with rfl | ⟨source, rfl⟩
  · exact ⟨hlt, hw⟩
  · exact ⟨hlt, getElem?_begin (c := c.cancel) hw source⟩

/-! ## Beginnings -/

/-- The sources that are started by orders one after the other, each with its time. -/
def begun : Nat → List Feed.Order → List (Source × Nat)
  | _, [] => []
  | now, .start source :: orders => (source, now) :: begun now orders
  | now, .advance ms :: orders => begun (now + ms) orders
  | now, _ :: orders => begun now orders

/-- What a worker does leaves where it began. -/
theorem Beat.begun_eq (hb : c.Beat c') :
    c'.now = c.now + 1 ∧ c'.workers.map Worker.beginning = c.workers.map Worker.beginning := by
  have hacts : ∀ {earlier : List Worker} {w w' : Worker}, c.HasDuty earlier w →
      w'.beginning = w.beginning →
      (earlier ++ [w']).map Worker.beginning = c.workers.map Worker.beginning := by
    intro earlier w w' hduty hsame
    rw [hduty.workers, List.map_append, List.map_append, List.map_singleton, hsame,
      List.map_singleton]
  cases hb with
  | rest hrest => exact ⟨rfl, rfl⟩
  | skip hduty hdue hpaused => exact ⟨rfl, hacts hduty rfl⟩
  | leave hduty hdue hpaused hstore => exact ⟨rfl, hacts hduty rfl⟩
  | send hduty hdue hpaused hstore => exact ⟨rfl, hacts hduty rfl⟩

theorem begun_pass (hc : c.Tidy) (ms : Nat) :
    (pass ms c).now = c.now + ms ∧
      (pass ms c).workers.map Worker.beginning = c.workers.map Worker.beginning := by
  induction ms generalizing c with
  | zero => exact ⟨rfl, rfl⟩
  | succ ms ih =>
    obtain ⟨hnow, hbegun⟩ := (beat_tick hc).begun_eq
    obtain ⟨hnows, hbeguns⟩ := ih hc.tick
    refine ⟨?_, hbeguns.trans hbegun⟩
    rw [Crew.pass, hnows, hnow, Nat.add_assoc, Nat.add_comm 1 ms]

/-- **There is a worker for each start.** -/
theorem begun_run (hc : c.Tidy) (orders : List Feed.Order) :
    (c.run orders).workers.map Worker.beginning
      = c.workers.map Worker.beginning ++ begun c.now orders := by
  induction orders generalizing c with
  | nil => exact (List.append_nil _).symm
  | cons o orders ih =>
    rw [run_cons, ih (hc.apply o)]
    cases o with
    | advance ms =>
      obtain ⟨hnow, hbegun⟩ := begun_pass hc ms
      rw [Crew.apply, hnow, hbegun]
      rfl
    | start source =>
      rw [Crew.apply, begin, List.map_append, List.append_assoc]
      rfl
    | _ => rfl

end Crew

end TraceViews
