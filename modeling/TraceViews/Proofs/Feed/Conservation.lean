import TraceViews.Proofs.Feed.Workers

/-!
# No record of a feed is lost

What the workers of a feed send is what its store accepts, and what the feed counts. Each worker
stamps its records with the readings of its own clock, one after the other, and acts at the end of
equal slots. The account of a run (`Crew.Account`) says all of this; it holds in every run
(`Crew.account_of_run`).
-/

namespace TraceViews

/-! ## What a store holds -/

/-- The records that a store holds, visible or queued. -/
def Store.held (s : Store) : List Record := s.records.toList ++ s.queue.toList

theorem Store.held_drain (s : Store) : s.drain.2.held = s.held := by
  rw [drain]
  split
  · rfl
  · simp [held, changed]

theorem Store.held_foldl_enqueue (s : Store) (records : List Record) :
    (records.foldl Store.enqueue s).held = s.held ++ records := by
  induction records generalizing s with
  | nil => exact (List.append_nil _).symm
  | cons r records ih =>
    rw [List.foldl_cons, ih]
    simp [held, enqueue]

namespace Supply

variable {x : Supply} {o : Feed.Order}

/-- The records that the store holds, none where it is gone. -/
def held (x : Supply) : List Record := (x.store.map Store.held).getD []

/-- The records that the store accepts in an order: those by which what it holds grows. -/
def gained (x : Supply) (o : Feed.Order) : List Record := (x.apply o).held.drop x.held.length

/-- The records that the store accepts in orders one after the other. -/
def accepted : Supply → List Feed.Order → List Record
  | _, [] => []
  | x, o :: orders => x.gained o ++ (x.apply o).accepted orders

theorem gained_of_held (h : (x.apply o).held = x.held) : x.gained o = [] := by
  rw [gained, h, List.drop_length]

theorem gained_dropStore (x : Supply) : x.gained .dropStore = [] := List.drop_nil

theorem held_drain (x : Supply) : (x.apply .drain).held = x.held := by
  rw [held, held, apply, Option.map_map]
  cases x.store with
  | none => rfl
  | some s => exact s.held_drain

end Supply

namespace Crew

variable {c c' c'' : Crew} {new more : List Record}

/-! ## What is sent -/

/-- What all workers have sent, in the order in which they began. -/
def sent (c : Crew) : List Record := c.workers.flatMap Worker.sent

/-- Between two states of a crew its workers send some records. They are counted, and the store
accepts them; nothing is sent where the store is gone. -/
structure Sends (c c' : Crew) (new : List Record) : Prop where
  sent : c'.sent = c.sent ++ new
  produced : c'.produced = c.produced + new.length
  store : c'.store = c.store.map fun s => new.foldl Store.enqueue s
  gone : c.store = none → new = []

theorem sends_nil (hsent : c'.sent = c.sent) (hproduced : c'.produced = c.produced)
    (hstore : c'.store = c.store) : c.Sends c' [] where
  sent := by rw [hsent, List.append_nil]
  produced := hproduced
  store := by
    rw [hstore]
    exact Option.map_id'.symm
  gone := fun _ => rfl

theorem Sends.trans (h : c.Sends c' new) (h' : c'.Sends c'' more) : c.Sends c'' (new ++ more) where
  sent := by rw [h'.sent, h.sent, List.append_assoc]
  produced := by rw [h'.produced, h.produced, List.length_append, Nat.add_assoc]
  store := by
    rw [h'.store, h.store, Option.map_map]
    exact congrArg (c.store.map ·) (funext fun s => (List.foldl_append ..).symm)
  gone := by
    intro hgone
    have hgone' : c'.store = none := by
      rw [h.store, hgone]
      rfl
    rw [h.gone hgone, h'.gone hgone', List.append_nil]

/-- **In a millisecond** at most one record is sent. -/
theorem Beat.exists_sends (hb : c.Beat c') : ∃ new, c.Sends c' new := by
  cases hb with
  | rest h => exact ⟨[], sends_nil rfl rfl rfl⟩
  | skip h hdue hpaused =>
    refine ⟨[], sends_nil ?_ rfl rfl⟩
    rw [sent, sent, h.workers, List.flatMap_append, List.flatMap_append]
    rfl
  | leave h hdue hpaused hstore =>
    refine ⟨[], sends_nil ?_ rfl rfl⟩
    rw [sent, sent, h.workers, List.flatMap_append, List.flatMap_append]
    rfl
  | @send earlier w s h hdue hpaused hstore =>
    refine ⟨[w.task.source.next.1], ?_, rfl, ?_, ?_⟩
    · rw [sent, sent, h.workers, List.flatMap_append, List.flatMap_append, List.append_assoc,
        List.flatMap_singleton, List.flatMap_singleton]
      rfl
    · rw [hstore]
      rfl
    · intro hgone
      cases hstore.symm.trans hgone

theorem exists_sends_pass (hc : c.Tidy) (ms : Nat) : ∃ new, c.Sends (pass ms c) new := by
  induction ms generalizing c with
  | zero => exact ⟨[], sends_nil rfl rfl rfl⟩
  | succ ms ih =>
    obtain ⟨new, hnew⟩ := (beat_tick hc).exists_sends
    obtain ⟨more, hmore⟩ := ih hc.tick
    exact ⟨new ++ more, hnew.trans hmore⟩

/-- What the store holds grows by what is sent. -/
theorem Sends.held (h : c.Sends c' new) : c'.supply.held = c.supply.held ++ new := by
  show (c'.store.map Store.held).getD [] = (c.store.map Store.held).getD [] ++ new
  rw [h.store]
  cases hstore : c.store with
  | none =>
    rw [h.gone hstore]
    rfl
  | some s => exact s.held_foldl_enqueue new

/-- **What is sent in an order** is what the store accepts. -/
theorem sent_apply (hc : c.Tidy) (o : Feed.Order) :
    (c.apply o).sent = c.sent ++ c.supply.gained o ∧
      (c.apply o).produced = c.produced + (c.supply.gained o).length := by
  have hnothing : (c.apply o).sent = c.sent → (c.apply o).produced = c.produced →
      c.supply.gained o = [] → (c.apply o).sent = c.sent ++ c.supply.gained o ∧
        (c.apply o).produced = c.produced + (c.supply.gained o).length := by
    intro hsent hproduced hgained
    rw [hgained, List.append_nil]
    exact ⟨hsent, hproduced⟩
  cases o with
  | advance ms =>
    obtain ⟨new, hnew⟩ := exists_sends_pass hc ms
    have hgained : c.supply.gained (.advance ms) = new := by
      rw [Supply.gained, ← supply_pass hc, hnew.held, List.drop_left]
    rw [hgained]
    exact ⟨hnew.sent, hnew.produced⟩
  | start source =>
    refine hnothing ?_ rfl (Supply.gained_of_held rfl)
    rw [sent, apply, begin, List.flatMap_append]
    exact List.append_nil _
  | drain => exact hnothing rfl rfl (Supply.gained_of_held c.supply.held_drain)
  | dropStore => exact hnothing rfl rfl c.supply.gained_dropStore
  | pause => exact hnothing rfl rfl (Supply.gained_of_held rfl)
  | resume => exact hnothing rfl rfl (Supply.gained_of_held rfl)
  | stop => exact hnothing rfl rfl (Supply.gained_of_held rfl)

/-- **What is sent in a run** is what the store accepts, and it is counted. -/
theorem sent_run (hc : c.Tidy) (orders : List Feed.Order) :
    (c.run orders).sent = c.sent ++ c.supply.accepted orders ∧
      (c.run orders).produced = c.produced + (c.supply.accepted orders).length := by
  induction orders generalizing c with
  | nil => exact ⟨(List.append_nil _).symm, rfl⟩
  | cons o orders ih =>
    obtain ⟨hsent, hproduced⟩ := sent_apply hc o
    obtain ⟨hsents, hproduceds⟩ := ih (hc.apply o)
    rw [run_cons, hsents, hproduceds, hsent, hproduced, supply_apply hc, Supply.accepted,
      List.length_append, List.append_assoc, Nat.add_assoc]
    exact ⟨rfl, rfl⟩

/-! ## The store -/

theorem store_pass (hc : c.Tidy) (ms : Nat) : (pass ms c).store.isSome = c.store.isSome := by
  obtain ⟨new, hnew⟩ := exists_sends_pass hc ms
  rw [hnew.store, Option.isSome_map]

/-- As long as the store is there, it holds what it accepts. -/
theorem held_apply (hc : c.Tidy) {o : Feed.Order} (ho : o ≠ .dropStore) :
    (c.apply o).supply.held = c.supply.held ++ c.supply.gained o ∧
      (c.apply o).store.isSome = c.store.isSome := by
  have hsame : (c.supply.apply o).held = c.supply.held →
      (c.apply o).supply.held = c.supply.held ++ c.supply.gained o := by
    intro hheld
    rw [supply_apply hc, Supply.gained_of_held hheld, hheld, List.append_nil]
  cases o with
  | advance ms =>
    obtain ⟨new, hnew⟩ := exists_sends_pass hc ms
    have hheld : (c.apply (.advance ms)).supply.held = c.supply.held ++ new := hnew.held
    rw [Supply.gained, ← supply_apply hc, hheld, List.drop_left]
    exact ⟨rfl, store_pass hc ms⟩
  | drain => exact ⟨hsame c.supply.held_drain, Option.isSome_map ..⟩
  | dropStore => exact absurd rfl ho
  | start source => exact ⟨hsame rfl, rfl⟩
  | pause => exact ⟨hsame rfl, rfl⟩
  | resume => exact ⟨hsame rfl, rfl⟩
  | stop => exact ⟨hsame rfl, rfl⟩

theorem held_run (hc : c.Tidy) {orders : List Feed.Order} (ho : .dropStore ∉ orders) :
    (c.run orders).supply.held = c.supply.held ++ c.supply.accepted orders ∧
      (c.run orders).store.isSome = c.store.isSome := by
  induction orders generalizing c with
  | nil => exact ⟨(List.append_nil _).symm, rfl⟩
  | cons o orders ih =>
    obtain ⟨ho, horders⟩ := not_or.1 (mt List.mem_cons.2 ho)
    obtain ⟨hheld, hstore⟩ := held_apply hc (Ne.symm ho)
    obtain ⟨hhelds, hstores⟩ := ih (hc.apply o) horders
    rw [run_cons, hhelds, hstores, hheld, hstore, supply_apply hc, Supply.accepted,
      List.append_assoc]
    exact ⟨rfl, rfl⟩

/-- A store that is gone stays gone, and accepts nothing. -/
theorem gone_run (hc : c.Tidy) (hgone : c.store = none) (orders : List Feed.Order) :
    (c.run orders).store = none ∧ c.supply.accepted orders = [] := by
  induction orders generalizing c with
  | nil => exact ⟨hgone, rfl⟩
  | cons o orders ih =>
    have hnext : (c.apply o).store = none := by
      cases o with
      | advance ms =>
        have hstore : (pass ms c).store.isSome = false := by
          rw [store_pass hc, hgone]
          rfl
        exact Option.isNone_iff_eq_none.1 (Option.isSome_eq_false_iff.1 hstore)
      | drain => exact congrArg (·.map fun s : Store => s.drain.2) hgone
      | dropStore => rfl
      | start source => exact hgone
      | pause => exact hgone
      | resume => exact hgone
      | stop => exact hgone
    have hgained : c.supply.gained o = [] := by
      have hheld : (c.apply o).supply.held = [] := by
        show ((c.apply o).store.map Store.held).getD [] = []
        rw [hnext]
        rfl
      rw [Supply.gained, ← supply_apply hc, hheld]
      exact List.drop_nil
    obtain ⟨hgones, haccepted⟩ := ih (hc.apply o) hnext
    rw [Supply.accepted, hgained, ← supply_apply hc, haccepted]
    exact ⟨hgones, rfl⟩

theorem gone_of_dropStore (hc : c.Tidy) {orders : List Feed.Order} (ho : .dropStore ∈ orders) :
    (c.run orders).store = none := by
  obtain ⟨before, after, rfl⟩ := List.append_of_mem ho
  rw [run_append]
  have hdropped : ((c.run before).apply .dropStore).store = none := rfl
  exact (gone_run ((hc.run before).apply .dropStore) hdropped after).1

/-! ## The account -/

/-- The account of a run: `x` is a feed with its store behind orders, `c` is its crew, and `accepted`
is what the store has accepted. -/
structure Account (orders : List Feed.Order) (x : Supply) (c : Crew) (accepted : List Record) :
    Prop where
  /-- The crew is that of the feed. -/
  supply : c.supply = x
  /-- It has a worker for each start, of which at most one is on duty. -/
  begun : c.workers.map Worker.beginning = begun 0 orders
  alone : c.onDuty.length ≤ 1
  /-- The feed counts what the store accepts, and that is what the workers send. -/
  produced : x.feed.produced = accepted.length
  sent : accepted = c.workers.flatMap Worker.sent
  /-- As long as the store is there, all of that is visible or queued. -/
  held : .dropStore ∉ orders → ∃ s, x.store = some s ∧
    s.records.toList ++ s.queue.toList = accepted ∧
    x.feed.produced = s.records.size + s.queue.size
  /-- A worker stamps its records with the first readings of its clock, one after the other. -/
  stamps : ∀ w ∈ c.workers, w.sent.map Record.timestamp = w.origin.clock.readings w.sent.length
  /-- One that is stopped or replaced does nothing any more. -/
  cancelled : ∀ (i : Nat) w, c.workers[i]? = some w → ∀ o, Cancels o → ∀ more,
    ((c.apply o).run more).workers[i]? = some w
  /-- Where the store is gone, the count stays as it is, -/
  counted : .dropStore ∈ orders → ∀ more, (x.run more).feed.produced = x.feed.produced
  /-- and a worker ends with the slot that it is in, unless it is paused. -/
  ends : .dropStore ∈ orders → ∀ w ∈ c.onDuty, ∀ ms,
    (x.apply (.advance ms)).feed.isRunning
      = (x.feed.paused || decide (x.feed.now + ms < nextSlot c.pace.shortest w.since x.feed.now))

/-- Where the store is gone, the worker on duty ends with its slot, unless it is paused. -/
theorem isRunning_of_onDuty (hfixed : c.pace.longest ≤ c.pace.shortest) (hpos : 0 < c.pace.shortest)
    (hc : c.Tidy) (hgone : c.store = none) {d : Nat}
    (hslots : ∀ w ∈ c.workers, OnSlots d c.now w) {w : Worker} (hw : w ∈ c.onDuty) (ms : Nat) :
    (c.supply.apply (.advance ms)).feed.isRunning
      = (c.paused || decide (c.now + ms < nextSlot d w.since c.now)) := by
  obtain ⟨hmem, hpolls⟩ := List.mem_filter.1 hw
  rw [← (hslots w hmem).due_eq (hc.waits w hmem hpolls)]
  show (c.supply.feed.advance ms c.store).1.isRunning = _
  rw [hgone, Feed.isRunning_advance_of_gone hfixed hpos (hc.task_eq_of_onDuty hw)]
  rfl

/-- **No record is lost or made twice**, whatever orders a feed is given, and one worker at a time
makes them. -/
theorem account_of_run {pace : Pace} (hfixed : pace.longest ≤ pace.shortest)
    (hpos : 0 < pace.shortest) (orders : List Feed.Order) :
    Account orders ((Supply.initial pace).run orders) ((initial pace).run orders)
      ((Supply.initial pace).accepted orders) := by
  have hinitial : (initial pace).Tidy := tidy_initial pace
  have htidy : ((initial pace).run orders).Tidy := hinitial.run orders
  have hsupply : ((initial pace).run orders).supply = (Supply.initial pace).run orders :=
    supply_run hinitial orders
  obtain ⟨hsent, hproduced⟩ := sent_run hinitial orders
  obtain ⟨-, hstamps⟩ := (lasting_stamps pace).run hinitial (List.forall_mem_nil _) orders
  obtain ⟨hpace, hslots⟩ := Lasting.run (c := initial pace) (lasting_onSlots hfixed hpos) hinitial
    (List.forall_mem_nil _) orders
  have hcount : ((Supply.initial pace).run orders).feed.produced
      = ((Supply.initial pace).accepted orders).length := by
    rw [← hsupply]
    exact hproduced.trans (Nat.zero_add _)
  refine ⟨hsupply, begun_run hinitial orders, htidy.length_onDuty_le, hcount, hsent.symm, ?held,
    ?stamps, ?cancelled, ?counted, ?ends⟩
  case held =>
    intro hkept
    obtain ⟨hheld, hstore⟩ := held_run hinitial hkept
    obtain ⟨s, hs⟩ := Option.isSome_iff_exists.1 hstore
    have hall : s.records.toList ++ s.queue.toList = (Supply.initial pace).accepted orders := by
      rw [Supply.held, supply, hs] at hheld
      exact hheld
    refine ⟨s, ?_, hall, ?_⟩
    · rw [← hsupply]
      exact hs
    · rw [hcount, ← hall, List.length_append, Array.length_toList, Array.length_toList]
  case stamps =>
    intro w hw
    have hread := hstamps w hw 0
    exact (hread.trans (List.append_nil _)).symm
  case cancelled =>
    intro i w hw o ho more
    obtain ⟨hlt, hkept⟩ := getElem?_of_cancels htidy hw ho
    exact getElem?_run_of_lt (htidy.apply o) hkept hlt more
  case counted =>
    intro hdropped more
    have hgone := gone_of_dropStore hinitial hdropped
    rw [← hsupply, ← supply_run htidy]
    show ((initial pace).run orders |>.run more).produced = _
    rw [(sent_run htidy more).2, (gone_run htidy hgone more).2]
    rfl
  case ends =>
    intro hdropped w hw ms
    have hfixed' : ((initial pace).run orders).pace.longest
        ≤ ((initial pace).run orders).pace.shortest := hpace ▸ hfixed
    have hpos' : 0 < ((initial pace).run orders).pace.shortest := hpace ▸ hpos
    rw [← hsupply, hpace]
    exact isRunning_of_onDuty hfixed' hpos' htidy (gone_of_dropStore hinitial hdropped) hslots hw ms

/-- A feed that is paused and restarted, and loses its store while it is paused. -/
def restarted (dice : Dice) : List Feed.Order :=
  [.start ⟨dice, .counting 100 5, []⟩, .advance 25, .pause, .advance 10, .resume, .advance 10,
    .start ⟨dice, .counting 0 1, []⟩, .advance 10, .drain, .pause, .dropStore, .advance 4, .resume]

/-- It makes three records, and one of the second source; it ends when the second worker's second
slot is over. -/
theorem account_of_restarted :
    let pace : Pace := ⟨10, 10⟩
    let orders := restarted ⟨id, 0⟩
    let x := (Supply.initial pace).run orders
    let accepted := (Supply.initial pace).accepted orders
    (pace.longest ≤ pace.shortest ∧ 0 < pace.shortest) ∧
      accepted.map Record.timestamp = [100, 105, 110, 0] ∧ x.feed.produced = 4 ∧
      (x.apply (.advance 5)).feed.isRunning = true ∧
      (x.apply (.advance 6)).feed.isRunning = false := by
  intro pace orders x accepted
  have hfixed : pace.longest ≤ pace.shortest := Nat.le_refl 10
  have hpos : 0 < pace.shortest := Nat.succ_pos 9
  obtain ⟨hsupply, -, -, hproduced, hsent, -, -, -, -, hends⟩ := account_of_run hfixed hpos orders
  have htimes : accepted.map Record.timestamp = [100, 105, 110, 0] := by
    rw [show accepted = _ from hsent]
    decide +kernel
  have hsince : ((initial pace).run orders).onDuty.map Worker.since = [45] := by decide +kernel
  obtain ⟨w, hw, hw45⟩ := List.mem_map.1 (hsince ▸ List.mem_singleton_self 45)
  have hdropped : .dropStore ∈ orders := by simp [orders, restarted]
  have hlasts := hends hdropped w hw
  rw [hw45, ← hsupply] at hlasts
  refine ⟨⟨hfixed, hpos⟩, htimes, ?_, ?_, ?_⟩
  · rw [show x.feed.produced = _ from hproduced, ← List.length_map Record.timestamp, htimes]
    rfl
  · rw [show x = _ from hsupply.symm]
    exact (hlasts 5).trans (by decide +kernel)
  · rw [show x = _ from hsupply.symm]
    exact (hlasts 6).trans (by decide +kernel)

end Crew

end TraceViews
