import TraceViews.Feed.Basic

/-!
# Time passing for a feed

Time may be cut into pieces: a feed that is advanced twice is where it is if it is advanced at once
(`Feed.advance_advance`). In a piece that ends where the task's delay ends, the task acts once. If
the store is gone then, it ends, unless it is paused (`Feed.isRunning_advance_of_gone`).
-/

namespace TraceViews.Feed

/-! ## Delays -/

/-- Delays are drawn, not read from the clock. -/
theorem clock_of_delay {pace : Pace} {source source' : Source} {ms : Nat}
    (h : source.delay pace = some (ms, source')) : source'.clock = source.clock := by
  rw [Source.delay] at h
  dsimp only at h
  split at h
  · cases h
    rfl
  · split at h
    · cases h
      rfl
    · cases h

theorem Task.clock_of_wait {pace : Pace} {now : Nat} {source : Source} {task : Task}
    (h : wait pace now source = some task) : task.source.clock = source.clock := by
  obtain ⟨⟨ms, source'⟩, hdelay, rfl⟩ := Option.map_eq_some_iff.1 h
  exact clock_of_delay hdelay

/-- A fixed delay is as long as it is said to be. -/
theorem Task.wait_eq {pace : Pace} (hfixed : pace.longest ≤ pace.shortest)
    (hpos : 0 < pace.shortest) (now : Nat) (source : Source) :
    wait pace now source = some ⟨source, now + pace.shortest⟩ := by
  have hmax : max pace.shortest 1 = pace.shortest := Nat.max_eq_left hpos
  rw [wait, Source.delay, if_pos hfixed, Option.map_some]
  simp only [hmax]

/-! ## What a task runs through -/

section Run

variable {pace : Pace} {paused : Bool} {stop : Nat} {task next : Task} {produced : Nat}
  {store : Option Store}

theorem Task.run_of_lt (h : stop < task.due) :
    task.run pace paused stop produced store = (some task, produced, store) := by
  rw [run, if_pos h]

/-- A task that does not go on when its delay is over has ended, -/
theorem Task.run_of_eq_none (hdue : task.due ≤ stop)
    (h : (task.act paused produced store).1.bind (wait pace task.due) = none) :
    task.run pace paused stop produced store = (none, (task.act paused produced store).2) := by
  rw [run, if_neg (Nat.not_lt_of_le hdue)]
  dsimp only
  split
  · rfl
  · next next hnext => cases h.symm.trans hnext

/-- and one that goes on waits for the end of the next delay. -/
theorem Task.run_of_eq_some (hdue : task.due ≤ stop)
    (h : (task.act paused produced store).1.bind (wait pace task.due) = some next) :
    task.run pace paused stop produced store
      = next.run pace paused stop (task.act paused produced store).2.1
          (task.act paused produced store).2.2 := by
  rw [run.eq_def pace paused stop task, if_neg (Nat.not_lt_of_le hdue)]
  dsimp only
  split
  · next hnone => cases h.symm.trans hnone
  · next next' hnext =>
    cases h.symm.trans hnext
    rfl

end Run

/-! ## Pieces of time -/

/-- Lets a task run on, if it has not ended. -/
def Task.runOn (pace : Pace) (paused : Bool) (stop : Nat)
    (x : Option Task × Nat × Option Store) : Option Task × Nat × Option Store :=
  match x.1 with
  | some task => task.run pace paused stop x.2.1 x.2.2
  | none => x

/-- **A task that runs in two pieces** is where it is if it runs at once. -/
theorem Task.runOn_run (pace : Pace) (paused : Bool) {stop stop' : Nat} (h : stop ≤ stop')
    (task : Task) (produced : Nat) (store : Option Store) :
    runOn pace paused stop' (task.run pace paused stop produced store)
      = task.run pace paused stop' produced store := by
  fun_induction run pace paused stop task produced store with
  | case1 task produced store hlt => rfl
  | case2 task produced store hle x hnone =>
    rw [run_of_eq_none (Nat.le_trans (Nat.le_of_not_lt hle) h) hnone]
    rfl
  | case3 task produced store hle x next hnext ih =>
    rw [ih, run_of_eq_some (Nat.le_trans (Nat.le_of_not_lt hle) h) hnext]

/-- **Time may be cut into pieces.** -/
theorem advance_advance (f : Feed) (ms more : Nat) (store : Option Store) :
    (f.advance ms store).1.advance more (f.advance ms store).2 = f.advance (ms + more) store := by
  have hnow : f.now + ms + more = f.now + (ms + more) := Nat.add_assoc ..
  cases htask : f.task with
  | none => simp [advance, htask, hnow]
  | some task =>
    have hrun := Task.runOn_run f.pace f.paused (Nat.le_add_right (f.now + ms) more) task f.produced
      store
    rw [hnow] at hrun
    simp only [advance, htask, ← hrun, hnow]
    generalize task.run f.pace f.paused (f.now + ms) f.produced store = x
    obtain ⟨_ | task, produced, store⟩ := x
    · rfl
    · rfl

/-- In the moment in which its delay ends, a task acts once. -/
theorem Task.run_due (pace : Pace) (paused : Bool) (task : Task) (produced : Nat)
    (store : Option Store) :
    task.run pace paused task.due produced store
      = ((task.act paused produced store).1.bind (wait pace task.due),
        (task.act paused produced store).2) := by
  cases hnext : (task.act paused produced store).1.bind (wait pace task.due) with
  | none => rw [run_of_eq_none (Nat.le_refl _) hnext]
  | some next =>
    obtain ⟨source, -, hwait⟩ := Option.bind_eq_some_iff.1 hnext
    rw [run_of_eq_some (Nat.le_refl _) hnext, run_of_lt (lt_due_of_wait hwait)]

/-- A feed that waits takes no notice of the time. -/
theorem advance_of_waits {f : Feed} {ms : Nat}
    (h : ∀ task, f.task = some task → f.now + ms < task.due) (store : Option Store) :
    f.advance ms store = ({ f with now := f.now + ms }, store) := by
  rw [advance]
  cases htask : f.task with
  | none => rfl
  | some task =>
    dsimp only
    rw [Task.run_of_lt (h task htask)]

/-- At the end of its delay a feed lets its task act. -/
theorem advance_of_due {f : Feed} {task : Task} (htask : f.task = some task)
    (hdue : task.due = f.now + 1) (store : Option Store) :
    f.advance 1 store
      = let x := task.run f.pace f.paused task.due f.produced store
        ({ f with now := f.now + 1, task := x.1, produced := x.2.1 }, x.2.2) := by
  rw [advance, htask, ← hdue]

/-! ## Where the store is gone -/

section Gone

variable {f : Feed} {task : Task} (hfixed : f.pace.longest ≤ f.pace.shortest)
  (hpos : 0 < f.pace.shortest)
include hfixed hpos

/-- A paused task does not end. -/
theorem Task.isSome_run_of_paused (stop : Nat) (task : Task) (produced : Nat)
    (store : Option Store) : (task.run f.pace true stop produced store).1.isSome = true := by
  fun_induction run f.pace true stop task produced store with
  | case1 task produced store hlt => rfl
  | case2 task produced store hle x hnone => cases (wait_eq hfixed hpos ..).symm.trans hnone
  | case3 task produced store hle x next hnext ih => exact ih

/-- A task that finds its store gone ends with its delay, unless it is paused. -/
theorem isRunning_advance_of_gone (htask : f.task = some task) (ms : Nat) :
    (f.advance ms none).1.isRunning = (f.paused || decide (f.now + ms < task.due)) := by
  rw [advance, htask, isRunning]
  dsimp only
  cases hpaused : f.paused with
  | true => exact Task.isSome_run_of_paused hfixed hpos ..
  | false =>
    rw [Bool.false_or]
    by_cases hlt : f.now + ms < task.due
    · rw [Task.run_of_lt hlt, decide_eq_true hlt]
      rfl
    · rw [Task.run_of_eq_none (Nat.le_of_not_lt hlt) rfl, decide_eq_false hlt]
      rfl

end Gone

end TraceViews.Feed
