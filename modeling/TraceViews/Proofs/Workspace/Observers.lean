import TraceViews.Proofs.Store.Receptions

/-!
# Observers of a store

The changes that a store announces can be replayed: they lead from the rows that there were to those
that there are, and the generation counts them (`Store.Follows`). Main statement: whatever happens
between, and however an observer takes what waits for it, what it has been told accounts for the
changes since it subscribed (`Workspace.informed_of_watch`).
-/

namespace TraceViews

/-! ## Replaying changes -/

/-- The number of rows behind a change, provided that it fits the number before: rows are inserted
behind all others, at least one, and those that are removed are all there are. -/
def Change.replay? (count : Nat) : Change → Option Nat
  | .inserted span => if span.start = count ∧ span.start < span.stop then some span.stop else none
  | .cleared removed => if removed = count then some 0 else none

/-- The number of rows behind changes that fit one after the other. -/
def replay? (count : Nat) (changes : List Change) : Option Nat :=
  changes.foldlM Change.replay? count

theorem replay?_append (count : Nat) (changes more : List Change) :
    replay? count (changes ++ more) = (replay? count changes).bind (replay? · more) :=
  List.foldlM_append

theorem replay?_singleton (count : Nat) (change : Change) :
    replay? count [change] = change.replay? count := by
  rw [replay?, List.foldlM_cons]
  exact bind_pure _

/-- What was replayed was replayed from the beginning. -/
theorem exists_replay?_of_append {count count' : Nat} {changes more : List Change}
    (h : replay? count (changes ++ more) = some count') : ∃ n, replay? count changes = some n := by
  rw [replay?_append, Option.bind_eq_some_iff] at h
  obtain ⟨n, hn, -⟩ := h
  exact ⟨n, hn⟩

namespace Store

/-- How a store goes on: every change is announced and counted, and the changes lead from the rows
before to the rows behind them. -/
structure Follows (s : Store) (changes : List Change) (s' : Store) : Prop where
  sent : s'.changes.sent.toList = s.changes.sent.toList ++ changes
  generation : s'.generation = s.generation + changes.length
  replay : replay? s.records.size changes = some s'.records.size

variable {s s' s'' : Store} {changes more : List Change}

namespace Follows

theorem refl (s : Store) : s.Follows [] s :=
  ⟨(List.append_nil _).symm, rfl, rfl⟩

theorem trans (h : s.Follows changes s') (h' : s'.Follows more s'') :
    s.Follows (changes ++ more) s'' where
  sent := by rw [h'.sent, h.sent, List.append_assoc]
  generation := by rw [h'.generation, h.generation, List.length_append, Nat.add_assoc]
  replay := by rw [replay?_append, h.replay, Option.bind_some, h'.replay]

/-- The generation goes up by the number of changes also as it is shown, in 64 bits. -/
theorem counter_sub (h : s.Follows changes s') :
    s'.counter - s.counter = .ofNat changes.length := by
  rw [counter, counter, h.generation, Nat.add_comm, UInt64.ofNat_add, UInt64.add_sub_cancel]

/-- It does not begin anew while there are fewer than `2 ^ 64` changes. -/
theorem toNat_counter_sub (h : s.Follows changes s') (hfew : changes.length < UInt64.size) :
    (s'.counter - s.counter).toNat = changes.length := by
  rw [h.counter_sub, UInt64.toNat_ofNat_of_lt' hfew]

end Follows

theorem Step.follows {change : Option Change} (h : s.Step change s') :
    s.Follows change.toList s' where
  sent := h.sent
  generation := by
    cases h with
    | drain h =>
      rw [drain_of_queue h]
      rfl
    | _ => rfl
  replay := by
    cases h with
    | drain h =>
      have hpos : s.records.size < (s.records ++ s.queue).size := by
        have hqueue : s.queue.size ≠ 0 := by simpa using h
        rw [Array.size_append]
        exact Nat.lt_add_of_pos_right (Nat.pos_of_ne_zero hqueue)
      rw [drain_of_queue h, Option.toList_some, replay?_singleton]
      exact if_pos ⟨rfl, hpos⟩
    | clear =>
      rw [Option.toList_some, replay?_singleton]
      exact if_pos rfl
    | _ => rfl

end Store

namespace Workspace

/-! ## Taking changes one by one -/

/-- Gives an observer the next piece of what waits for it. -/
def receive (w : Workspace) (observer : Nat) : Option (Reception Change × Workspace) := do
  let told := w.store.changes.receive (← w.observers[observer]?)
  return (told.1, { w with observers := w.observers.setIfInBounds observer told.2 })

/-- Whether nothing waits for an observer. -/
def UpToDate (w : Workspace) (observer : Nat) : Prop :=
  (w.receive observer).map Prod.fst = some .nothing

end Workspace

/-- What can happen while there are observers: an operation, which may be a poll of everything that
waits for one of them, or the reception of one piece of it. -/
inductive WatchStep where
  | operation (op : Operation)
  | receive (observer : Nat)

namespace Workspace

/-- Does a step, for what it makes of the workspace. -/
def watchStep (w : Workspace) : WatchStep → Workspace
  | .operation op => w.apply op
  | .receive observer => ((w.receive observer).map Prod.snd).getD w

/-- Does steps one after the other. -/
def watch (w : Workspace) (steps : List WatchStep) : Workspace := steps.foldl watchStep w

/-- The change of the store that a step announces. -/
def announces? (w : Workspace) : WatchStep → Option Change
  | .operation op => w.change? op
  | .receive _ => none

/-- The changes of the store that steps announce one after the other. -/
def announced : Workspace → List WatchStep → List Change
  | _, [] => []
  | w, step :: steps => (w.announces? step).toList ++ (w.watchStep step).announced steps

/-- What observer `k` is told in a step. -/
def tells (k : Nat) (w : Workspace) : WatchStep → List (Reception Change)
  | .operation (.poll observer) =>
    if observer = k then ((w.poll k).map fun polled => polled.1.receptions).getD [] else []
  | .receive observer => if observer = k then ((w.receive k).map Prod.fst).toList else []
  | _ => []

/-- What observer `k` is told in steps one after the other. -/
def told (k : Nat) : Workspace → List WatchStep → List (Reception Change)
  | _, [] => []
  | w, step :: steps => w.tells k step ++ (w.watchStep step).told k steps

variable {w w' : Workspace} {s : Store} {k : Nat} {c : Cursor} {told : List (Reception Change)}
  {changes earlier waiting : List Change}

theorem poll_eq (hc : w.observers[k]? = some c) :
    w.poll k = some (w.store.changes.deliver c, { w with
      observers := w.observers.setIfInBounds k (w.store.changes.deliver c).next }) := by
  rw [poll, hc]
  rfl

theorem receive_eq (hc : w.observers[k]? = some c) :
    w.receive k = some ((w.store.changes.receive c).1, { w with
      observers := w.observers.setIfInBounds k (w.store.changes.receive c).2 }) := by
  rw [receive, hc]
  rfl

theorem getElem?_setIfInBounds_observers (hc : w.observers[k]? = some c) (c' : Cursor) :
    (w.observers.setIfInBounds k c')[k]? = some c' := by
  obtain ⟨hlt, -⟩ := Array.getElem?_eq_some_iff.1 hc
  rw [Array.getElem?_setIfInBounds_self, if_pos hlt]

/-- Nothing waits for an observer that has been told of all changes. -/
theorem upToDate_iff (hc : w.observers[k]? = some earlier.length)
    (hsent : w.store.changes.sent.toList = earlier ++ waiting) : w.UpToDate k ↔ waiting = [] := by
  rw [UpToDate, receive_eq hc]
  simp only [Option.map_some, Option.some_inj]
  exact Broadcast.receive_eq_nothing_iff hsent

/-! ## Who moves an observer -/

theorem observers_changeView {ε : Type} (n : Nat) (f : View → Store → Except ε View) :
    (((w.changeView n f).map Prod.snd).getD w).observers = w.observers := by
  rw [changeView]
  cases w.view? n with
  | none => rfl
  | some v =>
    simp only [Option.bind_eq_bind, Option.bind_some]
    cases f v w.store <;> rfl

/-- Views are no observers. -/
theorem observers_applyToView (w : Workspace) (n : Nat) (op : ViewOperation) :
    (w.applyToView n op).observers = w.observers := by
  cases op with
  | setFilter filter => exact observers_changeView n _
  | setFilterText text => exact observers_changeView n _
  | setTemplate text => exact observers_changeView n _
  | refresh => exact observers_changeView n _
  | read =>
    rw [applyToView, readView]
    cases w.view? n <;> rfl
  | select row =>
    rw [applyToView, selectRow]
    cases w.view? n with
    | none => rfl
    | some v =>
      simp only [Option.bind_eq_bind, Option.bind_some]
      split <;> rfl
  | follow =>
    rw [applyToView, followView]
    cases w.view? n <;> rfl
  | takeNotices =>
    rw [applyToView, takeNotices]
    cases w.view? n <;> rfl
  | attach participant =>
    rw [applyToView, attach]
    cases w.view? n with
    | none => rfl
    | some v =>
      simp only [Option.bind_eq_bind, Option.bind_some]
      cases w.participant? participant <;> rfl
  | drop => rfl

/-- An observer stays in its place until it is polled. -/
theorem observer_apply (hc : w.observers[k]? = some c) {op : Operation} (hop : op ≠ .poll k) :
    (w.apply op).observers[k]? = some c := by
  cases op with
  | send r =>
    rcases apply_send_cases w r with h | h
    · rw [h, hc]
    · rw [h]
      exact hc
  | subscribe =>
    obtain ⟨hlt, -⟩ := Array.getElem?_eq_some_iff.1 hc
    show (w.observers.push w.store.changes.subscribe)[k]? = some c
    rw [Array.getElem?_push, if_neg (Nat.ne_of_lt hlt), hc]
  | poll observer =>
    have hne : observer ≠ k := fun h => hop (congrArg Operation.poll h)
    rw [apply, poll]
    cases w.observers[observer]? with
    | none => exact hc
    | some c' => exact (Array.getElem?_setIfInBounds_ne hne).trans hc
  | join hub =>
    rw [apply, join]
    cases w.hubs[hub]? <;> exact hc
  | publish participant timestamp =>
    rw [apply, publish]
    cases w.participant? participant with
    | none => exact hc
    | some p =>
      simp only [Option.bind_eq_bind, Option.bind_some]
      cases w.hubs[p.hub]? <;> exact hc
  | latest participant =>
    rw [apply, latest]
    cases w.participant? participant with
    | none => exact hc
    | some p =>
      simp only [Option.bind_eq_bind, Option.bind_some]
      cases w.hubs[p.hub]? <;> exact hc
  | view n op =>
    rw [apply, observers_applyToView]
    exact hc
  | _ => exact hc

/-- **What a step is to an observer**: what it is told, if anything, it is told piece by piece. -/
theorem receives_watchStep (hc : w.observers[k]? = some earlier.length)
    (hsent : w.store.changes.sent.toList = earlier ++ waiting) (step : WatchStep) :
    ∃ c', (w.watchStep step).observers[k]? = some c' ∧
      w.store.changes.Receives earlier.length (w.tells k step) c' := by
  cases step with
  | receive observer =>
    by_cases hobserver : observer = k
    · subst hobserver
      rw [watchStep, tells, if_pos rfl, receive_eq hc]
      simp only [Option.map_some, Option.getD_some, Option.toList_some]
      exact ⟨_, getElem?_setIfInBounds_observers hc _, .cons (.nil _)⟩
    · rw [watchStep, tells, if_neg hobserver, receive]
      refine ⟨_, ?_, .nil _⟩
      cases w.observers[observer]? with
      | none => exact hc
      | some c' => exact (Array.getElem?_setIfInBounds_ne hobserver).trans hc
  | operation op =>
    by_cases hop : op = .poll k
    · subst hop
      rw [watchStep, tells, if_pos rfl, apply, poll_eq hc]
      exact ⟨_, getElem?_setIfInBounds_observers hc _, (Broadcast.receives_deliver hsent).1⟩
    · have hnothing : w.tells k (.operation op) = [] := by
        cases op with
        | poll observer => exact if_neg fun h => hop (congrArg Operation.poll h)
        | _ => rfl
      rw [hnothing]
      exact ⟨_, observer_apply hc hop, .nil _⟩

/-! ## Watching -/

theorem follows_watchStep (w : Workspace) (step : WatchStep) :
    w.store.Follows (w.announces? step).toList (w.watchStep step).store := by
  cases step with
  | operation op => exact (step_apply w op).follows
  | receive observer =>
    rw [watchStep, receive]
    cases w.observers[observer]? <;> exact .refl _

/-- An observer watches since the store was `s`: the store has gone on from there by some changes,
and what the observer has been told accounts for the first of them. -/
structure Watches (s : Store) (k : Nat) (told : List (Reception Change)) (changes : List Change)
    (w : Workspace) : Prop where
  follows : s.Follows changes w.store
  place : ∃ heard waiting, changes = heard ++ waiting ∧
    w.observers[k]? = some (s.changes.sent.toList ++ heard).length ∧ Accounts told heard

theorem watches_subscribe (w : Workspace) :
    Watches w.store w.observers.size [] [] (w.apply .subscribe) where
  follows := .refl w.store
  place := by
    refine ⟨[], [], rfl, ?_, .nil⟩
    rw [List.append_nil, Array.length_toList]
    exact Array.getElem?_push_size

/-- **A step keeps an observer watching.** -/
theorem Watches.watchStep (h : Watches s k told changes w) (step : WatchStep) :
    Watches s k (told ++ w.tells k step) (changes ++ (w.announces? step).toList)
      (w.watchStep step) where
  follows := h.follows.trans (follows_watchStep w step)
  place := by
    obtain ⟨heard, waiting, rfl, hc, haccounts⟩ := h.place
    have hsent := h.follows.sent
    rw [← List.append_assoc] at hsent
    obtain ⟨c', hc', hreceives⟩ := receives_watchStep hc hsent step
    obtain ⟨more, rest, rfl, rfl, hmore⟩ := hreceives.accounts hsent rfl
    refine ⟨heard ++ more, rest ++ (w.announces? step).toList, ?_, ?_, haccounts.append hmore⟩
    · simp only [List.append_assoc]
    · rw [hc', List.append_assoc]

/-- So does a run. -/
theorem Watches.watch (h : Watches s k told changes w) (steps : List WatchStep) :
    Watches s k (told ++ w.told k steps) (changes ++ w.announced steps) (w.watch steps) := by
  induction steps generalizing w told changes with
  | nil =>
    rw [Workspace.told, announced, List.append_nil, List.append_nil]
    exact h
  | cons step steps ih =>
    rw [Workspace.told, announced, ← List.append_assoc, ← List.append_assoc]
    exact ih (h.watchStep step)

/-- A poll gives an observer the newest changes, and leaves nothing waiting. -/
theorem exists_poll_eq (hc : w.observers[k]? = some earlier.length)
    (hsent : w.store.changes.sent.toList = earlier ++ waiting) :
    ∃ d w', w.poll k = some (d, w') ∧ w'.UpToDate k ∧
      d.missed = waiting.length - changeCapacity ∧ d.values = newest changeCapacity waiting := by
  let polled : Workspace :=
    { w with observers := w.observers.setIfInBounds k (w.store.changes.deliver earlier.length).next }
  have hplace : polled.observers[k]? = some w.store.changes.sent.toList.length := by
    rw [Array.length_toList]
    exact getElem?_setIfInBounds_observers hc _
  have hend : polled.store.changes.sent.toList = w.store.changes.sent.toList ++ [] :=
    (List.append_nil _).symm
  exact ⟨_, polled, poll_eq hc, (upToDate_iff hplace hend).2 rfl, Broadcast.deliver_behind hsent⟩

/-- Where a gap is reported, more changes wait than are kept, and the newest ones are next. -/
theorem exists_poll_eq_of_gap {count : Nat} (hc : w.observers[k]? = some earlier.length)
    (hsent : w.store.changes.sent.toList = earlier ++ waiting)
    (hreceive : w.receive k = some (.missed count, w')) :
    changeCapacity < waiting.length ∧
      ∃ d w'', w'.poll k = some (d, w'') ∧ d.missed = 0 ∧
        d.values = newest changeCapacity waiting := by
  have hgap : changeCapacity < waiting.length := by
    refine Nat.lt_of_not_le ?_
    intro hkept
    rw [receive_eq hc, Broadcast.receive_of_kept hsent hkept] at hreceive
    cases waiting <;> cases hreceive
  refine ⟨hgap, ?_⟩
  let heard := earlier ++ waiting.take (waiting.length - changeCapacity)
  have hplace : w'.store = w.store ∧ w'.observers[k]? = some heard.length := by
    rw [receive_eq hc, Broadcast.receive_of_gap hsent hgap] at hreceive
    obtain ⟨-, rfl⟩ := Prod.mk.inj (Option.some.inj hreceive)
    exact ⟨rfl, getElem?_setIfInBounds_observers hc _⟩
  have hsplit : w'.store.changes.sent.toList = heard ++ newest changeCapacity waiting := by
    rw [hplace.1, newest, List.append_assoc, List.take_append_drop, hsent]
  have hfew := length_newest_le changeCapacity waiting
  obtain ⟨d, w'', hpoll, -, hmissed, hvalues⟩ := exists_poll_eq hplace.2 hsplit
  refine ⟨d, w'', hpoll, hmissed.trans (Nat.sub_eq_zero_of_le hfew), ?_⟩
  rw [hvalues, newest_of_length_le hfew]

/-- What an observer of the changes since the store was `s` can rely on, if it has been told `told`
until now. -/
structure Informed (s : Store) (changes : List Change) (w : Workspace) (k : Nat)
    (told : List (Reception Change)) : Prop where
  /-- Every change is counted, and the changes lead to the rows that there are. -/
  generation : w.store.generation = s.generation + changes.length
  replay : replay? s.records.size changes = some w.store.records.size
  /-- What it has been told accounts for the first changes; the others wait for it, and a poll gives
  it the newest of these and reports how many are missing. -/
  accounts : ∃ heard waiting, changes = heard ++ waiting ∧ Accounts told heard ∧
    (w.UpToDate k ↔ waiting = []) ∧ ∃ d w', w.poll k = some (d, w') ∧ w'.UpToDate k ∧
      d.missed = waiting.length - changeCapacity ∧ d.values = newest changeCapacity waiting
  /-- As long as it has missed nothing, what it has been told can be replayed. -/
  replayable : lost told = 0 → ∃ count, replay? s.records.size (received told) = some count
  /-- When nothing waits for it, then every change has been told or reported missing, and without a
  gap the replay ends at the rows that there are. -/
  complete : w.UpToDate k →
    w.store.generation = s.generation + ((received told).length + lost told) ∧
      (lost told = 0 → replay? s.records.size (received told) = some w.store.records.size)
  /-- The generations that were shown in 64 bits then differ by just as much, up to a multiple of
  `2 ^ 64`; exactly, if there were fewer changes than that. -/
  counter : w.UpToDate k →
    w.store.counter - s.counter = .ofNat ((received told).length + lost told) ∧
      (changes.length < UInt64.size →
        (w.store.counter - s.counter).toNat = (received told).length + lost told)
  /-- A poll that begins with a gap goes on with just the newest changes, -/
  poll : ∀ d w', w.poll k = some (d, w') → 0 < d.missed →
    changeCapacity < changes.length ∧ d.values = newest changeCapacity changes
  /-- and so does a poll behind the report of a gap. -/
  gap : ∀ count w', w.receive k = some (.missed count, w') →
    changeCapacity < changes.length ∧ ∃ d w'', w'.poll k = some (d, w'') ∧ d.missed = 0 ∧
      d.values = newest changeCapacity changes

theorem Watches.informed (h : Watches s k told changes w) : Informed s changes w k told := by
  obtain ⟨heard, waiting, rfl, hc, haccounts⟩ := h.place
  have hsent := h.follows.sent
  rw [← List.append_assoc] at hsent
  have hpast : changeCapacity < waiting.length →
      changeCapacity < (heard ++ waiting).length ∧
        newest changeCapacity waiting = newest changeCapacity (heard ++ waiting) := by
    intro hgap
    rw [List.length_append]
    exact ⟨Nat.lt_add_left _ hgap, (newest_append (Nat.le_of_lt hgap)).symm⟩
  -- when nothing waits, the store has gone on by just what the observer has heard of
  have hall : w.UpToDate k → heard ++ waiting = heard ∧ s.Follows heard w.store := by
    intro hupToDate
    have hfollows := h.follows
    rw [(upToDate_iff hc hsent).1 hupToDate, List.append_nil] at hfollows ⊢
    exact ⟨rfl, hfollows⟩
  constructor
  case generation => exact h.follows.generation
  case replay => exact h.follows.replay
  case accounts =>
    exact ⟨heard, waiting, rfl, haccounts, upToDate_iff hc hsent, exists_poll_eq hc hsent⟩
  case replayable =>
    intro hlost
    rw [haccounts.received_eq hlost]
    exact exists_replay?_of_append h.follows.replay
  case complete =>
    intro hupToDate
    obtain ⟨-, hfollows⟩ := hall hupToDate
    rw [haccounts.length_add_lost]
    refine ⟨hfollows.generation, ?_⟩
    intro hlost
    rw [haccounts.received_eq hlost, hfollows.replay]
  case counter =>
    intro hupToDate
    obtain ⟨heq, hfollows⟩ := hall hupToDate
    rw [haccounts.length_add_lost, heq]
    exact ⟨hfollows.counter_sub, hfollows.toNat_counter_sub⟩
  case poll =>
    intro d w' hpoll hpos
    obtain ⟨d, w', hpoll', -, hmissed, hvalues⟩ := exists_poll_eq hc hsent
    cases hpoll.symm.trans hpoll'
    rw [hmissed] at hpos
    obtain ⟨hlength, hnewest⟩ := hpast (Nat.lt_of_sub_pos hpos)
    exact ⟨hlength, hvalues.trans hnewest⟩
  case gap =>
    intro count w' hreceive
    obtain ⟨hgap, d, w'', hpoll, hmissed, hvalues⟩ := exists_poll_eq_of_gap hc hsent hreceive
    obtain ⟨hlength, hnewest⟩ := hpast hgap
    exact ⟨hlength, d, w'', hpoll, hmissed, hvalues.trans hnewest⟩

/-- **Observers account for every change.** Whatever has happened before an observer subscribes,
and whatever happens from then on, it is informed of the changes since then, at every time. -/
theorem informed_of_watch (before steps : List WatchStep) :
    let w := initial.watch before
    let k := w.subscribe.1
    let watched := w.subscribe.2
    Informed w.store (watched.announced steps) (watched.watch steps) k (watched.told k steps) :=
  ((watches_subscribe (initial.watch before)).watch steps).informed

/-- One change more than are kept has been announced to an observer: the first one is reported as
missing, and the others follow. -/
theorem informed_across_gap :
    let r : Record := ⟨"2", "net", 1, "x"⟩
    let before : List WatchStep := [.operation (.enqueue r), .operation .drain]
    let steps : List WatchStep := List.replicate 1025 (.operation .clear)
    let watched := (initial.watch before).subscribe.2
    ∃ d w', (watched.watch steps).poll 0 = some (d, w') ∧ d.missed = 1 ∧
      d.values = newest changeCapacity (watched.announced steps) := by
  intro r before steps watched
  obtain ⟨heard, waiting, hchanges, haccounts, -, d, w', hpoll, -, hmissed, hvalues⟩ :=
    (informed_of_watch before steps).accounts
  have haccounts : Accounts (watched.told 0 steps) heard := haccounts
  have htold : watched.told 0 steps = [] := by decide +kernel
  rw [htold] at haccounts
  cases haccounts
  have hwaiting : waiting = watched.announced steps := hchanges.symm
  have hlength : waiting.length = 1025 := by
    rw [hwaiting]
    decide +kernel
  rw [hlength] at hmissed
  exact ⟨d, w', hpoll, hmissed, hvalues.trans (congrArg _ hwaiting)⟩

end Workspace

end TraceViews
