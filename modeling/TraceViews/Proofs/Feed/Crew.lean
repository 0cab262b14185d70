import TraceViews.Proofs.Feed.Advance

/-!
# The workers behind a feed

A feed has its records made by workers. Each start begins another worker; a stop, and the start of
the next one, cancels the token that the present worker was given, and a worker whose token is
cancelled is not polled any more. Workers, tokens and the note of what each of them has sent make up
a crew, which is polled at every millisecond. A crew does what its feed does
(`Crew.supply_run`), and no two workers of it are on duty at a time (`Crew.Tidy.length_onDuty_le`).
-/

namespace TraceViews

/-! ## Orders -/

/-- What can happen to a feed and its store. -/
inductive Feed.Order where
  | start (source : Source)
  | advance (ms : Nat)
  | pause
  | resume
  | stop
  | drain
  | dropStore

/-- A feed with its store, which is `none` where it is gone. -/
structure Supply where
  feed : Feed
  store : Option Store

namespace Supply

/-- A feed that has not begun, and an empty store. -/
def initial (pace : Pace) : Supply := ⟨.make pace, some .empty⟩

/-- Carries an order out. -/
def apply (x : Supply) : Feed.Order → Supply
  | .start source => { x with feed := x.feed.start source }
  | .advance ms => ⟨(x.feed.advance ms x.store).1, (x.feed.advance ms x.store).2⟩
  | .pause => { x with feed := x.feed.pause }
  | .resume => { x with feed := x.feed.resume }
  | .stop => { x with feed := x.feed.stop }
  | .drain => { x with store := x.store.map fun s => s.drain.2 }
  | .dropStore => { x with store := none }

/-- Carries orders out one after the other. -/
def run (x : Supply) (orders : List Feed.Order) : Supply := orders.foldl apply x

end Supply

/-- A worker: the source that it was given and the time when it began, the task that it is at, its
token, whether it has ended, and what it has sent. -/
structure Worker where
  origin : Source
  since : Nat
  task : Feed.Task
  token : Nat
  ended : Bool
  sent : List Record

namespace Worker

/-- The source that a worker was given, and the time when it began. -/
def beginning (w : Worker) : Source × Nat := (w.origin, w.since)

/-- A worker goes on with a source: it waits for the end of its next delay, and ends if none can be
drawn. -/
def goOn (pace : Pace) (now : Nat) (source : Source) (w : Worker) : Worker :=
  let task := Feed.Task.wait pace now source
  { w with task := task.getD ⟨source, now⟩, ended := task.isNone }

/-- A worker that begins with a source. -/
def start (pace : Pace) (now : Nat) (source : Source) (token : Nat) : Worker :=
  goOn pace now source ⟨source, now, ⟨source, now⟩, token, false, []⟩

theorem clock_goOn (pace : Pace) (now : Nat) (source : Source) (w : Worker) :
    (w.goOn pace now source).task.source.clock = source.clock := by
  rw [goOn]
  cases hwait : Feed.Task.wait pace now source with
  | none => rfl
  | some task => exact Feed.Task.clock_of_wait hwait

theorem goOn_of_wait {pace : Pace} {now : Nat} {source : Source} {task : Feed.Task}
    (h : Feed.Task.wait pace now source = some task) (w : Worker) :
    w.goOn pace now source = { w with task, ended := false } := by
  rw [goOn, h]
  rfl

end Worker

/-- A crew: all workers that were ever begun, in that order; the token that is not cancelled; and
what the workers share. -/
structure Crew where
  pace : Pace
  now : Nat
  paused : Bool
  produced : Nat
  store : Option Store
  token : Nat
  workers : List Worker

namespace Crew

/-- A crew without workers. -/
def initial (pace : Pace) : Crew := ⟨pace, 0, false, 0, some .empty, 0, []⟩

/-- Whether a worker is polled: it has not ended, and its token is not cancelled. -/
def polls (c : Crew) (w : Worker) : Bool := !w.ended && w.token == c.token

/-- The workers that are on duty. -/
def onDuty (c : Crew) : List Worker := c.workers.filter c.polls

/-- Puts a worker behind those that were polled before. -/
def putBack (c : Crew) (w : Worker) : Crew := { c with workers := c.workers ++ [w] }

/-- What a worker does at the end of its delay: if it is not paused, it makes a record; it ends where
it cannot send it. -/
def act (c : Crew) (w : Worker) : Crew :=
  if c.paused then c.putBack (w.goOn c.pace w.task.due w.task.source)
  else
    match c.store with
    | none => c.putBack { w with ended := true }
    | some s =>
      let (r, source) := w.task.source.next
      putBack { c with produced := c.produced + 1, store := some (s.enqueue r) }
        (.goOn c.pace w.task.due source { w with sent := w.sent ++ [r] })

/-- Polls a worker. -/
def poll (c : Crew) (w : Worker) : Crew :=
  if c.polls w = false ∨ c.now < w.task.due then c.putBack w else c.act w

/-- Lets a millisecond pass, at the end of which every worker is polled. -/
def tick (c : Crew) : Crew := c.workers.foldl poll { c with now := c.now + 1, workers := [] }

/-- Lets milliseconds pass. -/
def pass : Nat → Crew → Crew
  | 0, c => c
  | ms + 1, c => pass ms c.tick

/-- Cancels the token of the present worker. -/
def cancel (c : Crew) : Crew := { c with token := c.token + 1 }

/-- Begins a worker with a token that is not cancelled. -/
def begin (c : Crew) (source : Source) : Crew :=
  { c with workers := c.workers ++ [.start c.pace c.now source c.token] }

/-- Carries an order out. -/
def apply (c : Crew) : Feed.Order → Crew
  | .start source => c.cancel.begin source
  | .advance ms => pass ms c
  | .pause => { c with paused := true }
  | .resume => { c with paused := false }
  | .stop => c.cancel
  | .drain => { c with store := c.store.map fun s => s.drain.2 }
  | .dropStore => { c with store := none }

/-- Carries orders out one after the other. -/
def run (c : Crew) (orders : List Feed.Order) : Crew := orders.foldl apply c

@[simp] theorem run_cons (c : Crew) (o : Feed.Order) (orders : List Feed.Order) :
    c.run (o :: orders) = (c.apply o).run orders := rfl

theorem run_append (c : Crew) (orders more : List Feed.Order) :
    c.run (orders ++ more) = (c.run orders).run more := List.foldl_append

/-- The feed and the store of a crew. -/
def supply (c : Crew) : Supply :=
  ⟨⟨c.pace, c.now, c.onDuty.head?.map Worker.task, c.paused, c.produced⟩, c.store⟩

/-! ## Tokens -/

/-- Every worker has a newer token than those before, and none a token that is still to come; who is
on duty waits for a time that is still to come. -/
structure Tidy (c : Crew) : Prop where
  ascending : (c.workers.map Worker.token).Pairwise (· < ·)
  given : ∀ token ∈ c.workers.map Worker.token, token ≤ c.token
  waits : ∀ w ∈ c.workers, c.polls w = true → c.now < w.task.due

variable {c c' : Crew} {earlier : List Worker} {w w' : Worker}

theorem polls_of_lt (h : w.token < c.token) : c.polls w = false := by
  rw [polls, beq_eq_false_iff_ne.2 (Nat.ne_of_lt h), Bool.and_false]

/-- A worker that is polled when it has gone on waits for a time that is still to come. -/
theorem lt_due_of_polls_goOn {pace : Pace} {now : Nat} {source : Source}
    (h : c.polls (w.goOn pace now source) = true) : now < (w.goOn pace now source).task.due := by
  cases hwait : Feed.Task.wait pace now source with
  | none =>
    rw [polls, Worker.goOn, hwait] at h
    cases h
  | some task =>
    rw [w.goOn_of_wait hwait]
    exact Feed.Task.lt_due_of_wait hwait

/-- A worker is on duty; all others began earlier, and are not polled any more. -/
structure HasDuty (c : Crew) (earlier : List Worker) (w : Worker) : Prop where
  workers : c.workers = earlier ++ [w]
  polls : c.polls w = true
  others : ∀ u ∈ earlier, c.polls u = false

theorem filter_polls_concat (h : ∀ u ∈ earlier, c.polls u = false) (w : Worker) :
    (earlier ++ [w]).filter c.polls = if c.polls w then [w] else [] := by
  rw [List.filter_append, List.filter_eq_nil_iff.2 fun u hu => by simp [h u hu], List.nil_append]
  cases hw : c.polls w <;> simp [hw]

theorem HasDuty.onDuty_eq (h : c.HasDuty earlier w) : c.onDuty = [w] := by
  rw [onDuty, h.workers, filter_polls_concat h.others, if_pos h.polls]

/-- Only the worker that began last may be on duty. -/
theorem Tidy.hasDuty (h : c.Tidy) :
    (∀ w ∈ c.workers, c.polls w = false) ∨ ∃ earlier w, c.HasDuty earlier w := by
  rcases List.eq_nil_or_concat c.workers with hnone | ⟨earlier, w, hworkers⟩
  · rw [hnone]
    exact .inl (List.forall_mem_nil _)
  · rw [List.concat_eq_append] at hworkers
    obtain ⟨hascending, hgiven, -⟩ := h
    rw [hworkers, List.map_append, List.pairwise_append] at hascending
    rw [hworkers, List.map_append] at hgiven
    have hothers : ∀ u ∈ earlier, c.polls u = false := by
      intro u hu
      refine polls_of_lt (Nat.lt_of_lt_of_le
        (hascending.2.2 u.token (List.mem_map_of_mem hu) w.token (List.mem_singleton_self _)) ?_)
      exact hgiven w.token (List.mem_append_right _ (List.mem_singleton_self _))
    cases hw : c.polls w with
    | true => exact .inr ⟨earlier, w, hworkers, hw, hothers⟩
    | false =>
      refine .inl ?_
      rw [hworkers, List.forall_mem_append, List.forall_mem_singleton]
      exact ⟨hothers, hw⟩

/-- **At most one worker is on duty.** -/
theorem Tidy.length_onDuty_le (h : c.Tidy) : c.onDuty.length ≤ 1 := by
  rcases h.hasDuty with hnone | ⟨earlier, w, hduty⟩
  · rw [onDuty, List.filter_eq_nil_iff.2 fun w hw => by simp [hnone w hw]]
    exact Nat.zero_le 1
  · rw [hduty.onDuty_eq]
    exact Nat.le_refl 1

/-! ## A millisecond -/

/-- **What a millisecond can make of a crew.** Either nobody's delay ends; or the delay of the worker
on duty ends, who then skips a record, leaves, or sends one. -/
inductive Beat (c : Crew) : Crew → Prop where
  | rest (h : ∀ w ∈ c.workers, c.polls w = true → c.now + 1 < w.task.due) :
    Beat c { c with now := c.now + 1 }
  | skip {earlier : List Worker} {w : Worker} (h : c.HasDuty earlier w)
    (hdue : w.task.due = c.now + 1) (hpaused : c.paused = true) :
    Beat c { c with
      now := c.now + 1
      workers := earlier ++ [w.goOn c.pace w.task.due w.task.source] }
  | leave {earlier : List Worker} {w : Worker} (h : c.HasDuty earlier w)
    (hdue : w.task.due = c.now + 1) (hpaused : c.paused = false) (hstore : c.store = none) :
    Beat c { c with now := c.now + 1, workers := earlier ++ [{ w with ended := true }] }
  | send {earlier : List Worker} {w : Worker} {s : Store} (h : c.HasDuty earlier w)
    (hdue : w.task.due = c.now + 1) (hpaused : c.paused = false) (hstore : c.store = some s) :
    Beat c { c with
      now := c.now + 1
      workers := earlier ++ [Worker.goOn c.pace w.task.due w.task.source.next.2
        { w with sent := w.sent ++ [w.task.source.next.1] }]
      produced := c.produced + 1
      store := some (s.enqueue w.task.source.next.1) }

/-- Workers that have nothing to do are only put back. -/
theorem foldl_poll {workers : List Worker}
    (h : ∀ w ∈ workers, c.polls w = false ∨ c.now < w.task.due) :
    workers.foldl poll c = { c with workers := c.workers ++ workers } := by
  induction workers generalizing c with
  | nil => rw [List.foldl_nil, List.append_nil]
  | cons w workers ih =>
    obtain ⟨hw, hworkers⟩ := List.forall_mem_cons.1 h
    rw [List.foldl_cons, poll, if_pos hw]
    refine (ih (c := { c with workers := c.workers ++ [w] }) hworkers).trans ?_
    rw [List.append_assoc]
    rfl

theorem poll_of_due (hpolls : c.polls w = true) (hdue : w.task.due = c.now) :
    c.poll w = c.act w := by
  rw [poll, if_neg]
  rw [hpolls, hdue]
  simp

theorem act_of_paused (hpaused : c.paused = true) (w : Worker) :
    c.act w = c.putBack (w.goOn c.pace w.task.due w.task.source) := by
  rw [act, if_pos hpaused]

theorem act_of_closed (hpaused : c.paused = false) (hstore : c.store = none) (w : Worker) :
    c.act w = c.putBack { w with ended := true } := by
  rw [act, if_neg (Bool.eq_false_iff.1 hpaused), hstore]

theorem act_of_open {s : Store} (hpaused : c.paused = false) (hstore : c.store = some s)
    (w : Worker) :
    c.act w
      = putBack { c with
          produced := c.produced + 1
          store := some (s.enqueue w.task.source.next.1) }
        (.goOn c.pace w.task.due w.task.source.next.2
          { w with sent := w.sent ++ [w.task.source.next.1] }) := by
  rw [act, if_neg (Bool.eq_false_iff.1 hpaused), hstore]

theorem beat_tick (hc : c.Tidy) : c.Beat c.tick := by
  by_cases hrest : ∀ w ∈ c.workers, c.polls w = true → c.now + 1 < w.task.due
  · have hpoll : c.tick = { c with now := c.now + 1 } := by
      refine foldl_poll (c := { c with now := c.now + 1, workers := [] }) ?_
      intro w hw
      cases hpolls : c.polls w with
      | false => exact .inl hpolls
      | true => exact .inr (hrest w hw hpolls)
    rw [hpoll]
    exact .rest hrest
  · obtain hnone | ⟨earlier, w, h⟩ := hc.hasDuty
    · refine absurd ?_ hrest
      intro w hw hpolls
      rw [hnone w hw] at hpolls
      cases hpolls
    · have hwait : c.now < w.task.due := by
        refine hc.waits w ?_ h.polls
        rw [h.workers]
        exact List.mem_append_right _ (List.mem_singleton_self w)
      have hdue : w.task.due = c.now + 1 := by
        refine Nat.le_antisymm (Nat.le_of_not_lt fun hlater => hrest ?_) hwait
        intro u hu hpolls
        rw [h.workers, List.mem_append, List.mem_singleton] at hu
        rcases hu with hu | rfl
        · rw [h.others u hu] at hpolls
          cases hpolls
        · exact hlater
      let polled : Crew := { c with now := c.now + 1, workers := earlier }
      have hothers : earlier.foldl poll { c with now := c.now + 1, workers := [] } = polled :=
        foldl_poll fun u hu => .inl (h.others u hu)
      have hact : c.tick = polled.act w := by
        rw [tick, h.workers, List.foldl_append, hothers]
        exact poll_of_due h.polls hdue
      rw [hact]
      cases hpaused : c.paused with
      | true =>
        rw [act_of_paused (c := polled) hpaused]
        exact .skip h hdue hpaused
      | false =>
        cases hstore : c.store with
        | none =>
          rw [act_of_closed (c := polled) hpaused hstore]
          exact .leave h hdue hpaused hstore
        | some s =>
          rw [act_of_open (c := polled) hpaused hstore]
          exact .send h hdue hpaused hstore

/-- **A millisecond keeps tokens and delays in order.** -/
theorem Beat.tidy (hb : c.Beat c') (hc : c.Tidy) : c'.Tidy := by
  -- the worker that acts keeps its token
  have hacts : ∀ {earlier w w'} produced store, c.HasDuty earlier w → w'.token = w.token →
      (c.polls w' = true → c.now + 1 < w'.task.due) →
      Tidy { c with now := c.now + 1, workers := earlier ++ [w'], produced, store } := by
    intro earlier w w' produced store h htoken hwait
    have htokens : (earlier ++ [w']).map Worker.token = c.workers.map Worker.token := by
      rw [h.workers, List.map_append, List.map_append, List.map_singleton, htoken]
      rfl
    refine ⟨by rw [htokens]; exact hc.ascending, by rw [htokens]; exact hc.given, ?_⟩
    intro u hu hpolls
    rcases List.mem_append.1 hu with hu | hu
    · cases (h.others u hu).symm.trans hpolls
    · rw [List.mem_singleton.1 hu] at hpolls ⊢
      exact hwait hpolls
  cases hb with
  | rest h => exact ⟨hc.ascending, hc.given, h⟩
  | skip h hdue hpaused => exact hacts _ _ h rfl fun hpolls => hdue ▸ lt_due_of_polls_goOn hpolls
  | leave h hdue hpaused hstore => exact hacts _ _ h rfl nofun
  | send h hdue hpaused hstore =>
    exact hacts _ _ h rfl fun hpolls => hdue ▸ lt_due_of_polls_goOn hpolls

/-! ## The feed of a crew -/

theorem HasDuty.supply_eq (h : c.HasDuty earlier w) :
    c.supply = ⟨⟨c.pace, c.now, some w.task, c.paused, c.produced⟩, c.store⟩ := by
  rw [supply, h.onDuty_eq]
  rfl

/-- The task of the feed of a crew whose last worker goes on is the next one of that worker. -/
theorem supply_of_goOn {pace : Pace} {now : Nat} {source : Source}
    (hworkers : c.workers = earlier ++ [w.goOn pace now source])
    (hothers : ∀ u ∈ earlier, c.polls u = false) (htoken : w.token = c.token) :
    c.supply = ⟨⟨c.pace, c.now, Feed.Task.wait pace now source, c.paused, c.produced⟩, c.store⟩ := by
  have hpolls : c.polls (w.goOn pace now source) = (Feed.Task.wait pace now source).isSome := by
    rw [polls, Worker.goOn, htoken, beq_self_eq_true, Bool.and_true, Option.not_isNone]
  rw [supply, onDuty, hworkers, filter_polls_concat hothers, hpolls]
  cases hwait : Feed.Task.wait pace now source with
  | none => rfl
  | some task =>
    rw [w.goOn_of_wait hwait]
    rfl

theorem HasDuty.token_eq (h : c.HasDuty earlier w) : w.token = c.token := by
  have hpolls := h.polls
  rw [Crew.polls, Bool.and_eq_true, beq_iff_eq] at hpolls
  exact hpolls.2

/-- The task of the feed is that of the worker on duty. -/
theorem Tidy.task_eq_of_onDuty (hc : c.Tidy) (hw : w ∈ c.onDuty) :
    c.supply.feed.task = some w.task := by
  obtain ⟨hmem, hpolls⟩ := List.mem_filter.1 hw
  rcases hc.hasDuty with hnone | ⟨earlier, u, hduty⟩
  · cases (hnone w hmem).symm.trans hpolls
  · rw [hduty.onDuty_eq, List.mem_singleton] at hw
    rw [hduty.supply_eq, hw]

/-- **A crew does in a millisecond what its feed does.** -/
theorem Beat.supply_eq (hb : c.Beat c') : c'.supply = c.supply.apply (.advance 1) := by
  cases hb with
  | rest h =>
    have hwaits : ∀ task, c.supply.feed.task = some task → c.supply.feed.now + 1 < task.due := by
      intro task htask
      obtain ⟨w, hw, rfl⟩ := Option.map_eq_some_iff.1 htask
      obtain ⟨hw, hpolls⟩ := List.mem_filter.1 (List.mem_of_mem_head? hw)
      exact h w hw hpolls
    rw [Supply.apply, Feed.advance_of_waits hwaits]
    rfl
  | skip h hdue hpaused =>
    refine Eq.trans (supply_of_goOn rfl h.others h.token_eq) ?_
    rw [h.supply_eq, Supply.apply, Feed.advance_of_due rfl hdue, Feed.Task.run_due, hpaused]
    rfl
  | @leave earlier w h hdue hpaused hstore =>
    have hnone : onDuty { c with
        now := c.now + 1, workers := earlier ++ [{ w with ended := true }] } = [] :=
      filter_polls_concat h.others { w with ended := true }
    rw [supply, hnone, h.supply_eq, Supply.apply, Feed.advance_of_due rfl hdue, Feed.Task.run_due,
      hpaused, hstore]
    rfl
  | send h hdue hpaused hstore =>
    refine Eq.trans (supply_of_goOn rfl h.others h.token_eq) ?_
    rw [h.supply_eq, Supply.apply, Feed.advance_of_due rfl hdue, Feed.Task.run_due, hpaused, hstore]
    rfl

/-! ## Orders to a crew -/

theorem Tidy.waits_supply (hc : c.Tidy) {task : Feed.Task} (htask : c.supply.feed.task = some task) :
    c.supply.feed.now < task.due := by
  obtain ⟨w, hw, rfl⟩ := Option.map_eq_some_iff.1 htask
  obtain ⟨hw, hpolls⟩ := List.mem_filter.1 (List.mem_of_mem_head? hw)
  exact hc.waits w hw hpolls

theorem Tidy.tick (hc : c.Tidy) : c.tick.Tidy := (beat_tick hc).tidy hc

theorem Tidy.pass (hc : c.Tidy) (ms : Nat) : (pass ms c).Tidy := by
  induction ms generalizing c with
  | zero => exact hc
  | succ ms ih => exact ih hc.tick

theorem supply_pass (hc : c.Tidy) (ms : Nat) :
    (pass ms c).supply = c.supply.apply (.advance ms) := by
  induction ms generalizing c with
  | zero =>
    have hwaits : ∀ task, c.supply.feed.task = some task → c.supply.feed.now + 0 < task.due :=
      fun task => hc.waits_supply
    rw [Supply.apply, Feed.advance_of_waits hwaits]
    rfl
  | succ ms ih =>
    have hcut := Feed.advance_advance c.supply.feed 1 ms c.supply.store
    rw [Crew.pass, ih hc.tick, (beat_tick hc).supply_eq, Nat.add_comm ms 1, Supply.apply,
      Supply.apply, hcut]
    rfl

theorem Tidy.lt_cancel (hc : c.Tidy) {w : Worker} (hw : w ∈ c.workers) : w.token < c.cancel.token :=
  Nat.lt_succ_of_le (hc.given w.token (List.mem_map_of_mem hw))

/-- Behind a cancel nobody is on duty. -/
theorem Tidy.polls_cancel (hc : c.Tidy) : ∀ w ∈ c.workers, c.cancel.polls w = false :=
  fun _ hw => polls_of_lt (hc.lt_cancel hw)

theorem Tidy.apply (hc : c.Tidy) (o : Feed.Order) : (c.apply o).Tidy := by
  cases o with
  | start source =>
    refine ⟨?_, ?_, ?_⟩
    · show ((c.workers ++ [_]).map Worker.token).Pairwise _
      rw [List.map_append, List.pairwise_append]
      refine ⟨hc.ascending, List.pairwise_singleton _ _, ?_⟩
      intro token htoken token' htoken'
      rw [List.mem_singleton.1 htoken']
      exact Nat.lt_succ_of_le (hc.given token htoken)
    · rw [Crew.apply, begin, List.map_append, List.forall_mem_append]
      refine ⟨fun token htoken => Nat.le_succ_of_le (hc.given token htoken), ?_⟩
      exact List.forall_mem_singleton.2 (Nat.le_refl _)
    · intro w hw hpolls
      rcases List.mem_append.1 hw with hw | hw
      · cases (hc.polls_cancel w hw).symm.trans hpolls
      · rw [List.mem_singleton.1 hw] at hpolls ⊢
        exact lt_due_of_polls_goOn hpolls
  | advance ms => exact hc.pass ms
  | stop =>
    refine ⟨hc.ascending, fun token htoken => Nat.le_succ_of_le (hc.given token htoken), ?_⟩
    intro w hw hpolls
    cases (hc.polls_cancel w hw).symm.trans hpolls
  | pause => exact ⟨hc.ascending, hc.given, hc.waits⟩
  | resume => exact ⟨hc.ascending, hc.given, hc.waits⟩
  | drain => exact ⟨hc.ascending, hc.given, hc.waits⟩
  | dropStore => exact ⟨hc.ascending, hc.given, hc.waits⟩

theorem supply_apply (hc : c.Tidy) (o : Feed.Order) : (c.apply o).supply = c.supply.apply o := by
  cases o with
  | start source =>
    rw [apply, supply_of_goOn (c := c.cancel.begin source) rfl hc.polls_cancel rfl]
    rfl
  | advance ms => exact supply_pass hc ms
  | stop =>
    have hnone : c.cancel.onDuty = [] :=
      List.filter_eq_nil_iff.2 fun w hw => by simp [hc.polls_cancel w hw]
    rw [apply, supply, hnone]
    rfl
  | pause => rfl
  | resume => rfl
  | drain => rfl
  | dropStore => rfl

theorem Tidy.run (hc : c.Tidy) (orders : List Feed.Order) : (c.run orders).Tidy := by
  induction orders generalizing c with
  | nil => exact hc
  | cons o orders ih => exact ih (hc.apply o)

/-- **A crew does what its feed does.** -/
theorem supply_run (hc : c.Tidy) (orders : List Feed.Order) :
    (c.run orders).supply = c.supply.run orders := by
  induction orders generalizing c with
  | nil => rfl
  | cons o orders ih =>
    rw [run_cons, ih (hc.apply o), supply_apply hc]
    rfl

theorem tidy_initial (pace : Pace) : (initial pace).Tidy :=
  ⟨.nil, List.forall_mem_nil _, List.forall_mem_nil _⟩

end Crew

end TraceViews
