import TraceViews.Proofs.Feed.Workers

/-!
# Pausing and resuming while a feed waits

A feed looks at its flag when a delay ends, and not before. As long as it waits, orders that pause
and resume it may be left out, if the flag is set to what they leave (`Supply.run_switched`).
-/

namespace TraceViews

namespace Feed.Order

/-- The time that an order takes. -/
def elapsed : Feed.Order → Nat
  | .advance ms => ms
  | _ => 0

/-- The flag behind an order. -/
def flag (paused : Bool) : Feed.Order → Bool
  | .pause => true
  | .resume => false
  | _ => paused

/-- An order that sets the flag, and nothing else. -/
def isSwitch : Feed.Order → Bool
  | .pause => true
  | .resume => true
  | _ => false

/-- The order that sets the flag to a value. -/
def setFlag : Bool → Feed.Order
  | true => .pause
  | false => .resume

end Feed.Order

namespace Feed

/-- The time that orders take. -/
def elapsed : List Feed.Order → Nat
  | [] => 0
  | o :: orders => o.elapsed + elapsed orders

/-- The flag behind orders. -/
def flag (paused : Bool) (orders : List Feed.Order) : Bool := orders.foldl Order.flag paused

/-- What is left of orders where those that set the flag are taken out. -/
def unswitched (orders : List Feed.Order) : List Feed.Order := orders.filter (!·.isSwitch)

/-- The task of a feed does not act before a time has passed. -/
def Waits (f : Feed) (ms : Nat) : Prop := ∀ task, f.task = some task → f.now + ms < task.due

theorem flag_append (paused : Bool) (orders more : List Feed.Order) :
    flag paused (orders ++ more) = flag (flag paused orders) more := List.foldl_append

theorem unswitched_append (orders more : List Feed.Order) :
    unswitched (orders ++ more) = unswitched orders ++ unswitched more := List.filter_append ..

theorem unswitched_of_switch {o : Feed.Order} (h : o.isSwitch = true) (orders : List Feed.Order) :
    unswitched (o :: orders) = unswitched orders :=
  List.filter_cons_of_neg (by simp [h])

theorem unswitched_of_other {o : Feed.Order} (h : o.isSwitch = false) (orders : List Feed.Order) :
    unswitched (o :: orders) = o :: unswitched orders :=
  List.filter_cons_of_pos (by simp [h])

theorem mem_unswitched {orders : List Feed.Order} {o : Feed.Order} :
    o ∈ unswitched orders ↔ o ∈ orders ∧ o.isSwitch = false := by
  simp [unswitched]

theorem unswitched_eq_self {orders : List Feed.Order} (h : ∀ o ∈ orders, o.isSwitch = false) :
    unswitched orders = orders :=
  List.filter_eq_self.2 fun o ho => by simp [h o ho]

theorem Order.isSwitch_setFlag (b : Bool) : (setFlag b).isSwitch = true := by
  cases b <;> rfl

theorem Order.flag_setFlag (b paused : Bool) : (setFlag b).flag paused = b := by
  cases b <;> rfl

theorem Order.not_cancels_setFlag (b : Bool) : ¬ Crew.Cancels (setFlag b) := by
  cases b <;> simp [Crew.Cancels, setFlag]

/-- Setting the flag takes no time. -/
theorem Order.elapsed_of_switch {o : Feed.Order} (h : o.isSwitch = true) : o.elapsed = 0 := by
  cases o with
  | pause => rfl
  | resume => rfl
  | _ => cases h

/-- Other orders keep the flag. -/
theorem Order.flag_of_other {o : Feed.Order} (h : o.isSwitch = false) (paused : Bool) :
    o.flag paused = paused := by
  cases o with
  | pause => cases h
  | resume => cases h
  | _ => rfl

theorem elapsed_unswitched (orders : List Feed.Order) :
    elapsed (unswitched orders) = elapsed orders := by
  induction orders with
  | nil => rfl
  | cons o orders ih =>
    cases ho : o.isSwitch with
    | true =>
      rw [unswitched_of_switch ho, ih, elapsed, Order.elapsed_of_switch ho, Nat.zero_add]
    | false => rw [unswitched_of_other ho, elapsed, elapsed, ih]

theorem flag_of_others {orders : List Feed.Order} (h : ∀ o ∈ orders, o.isSwitch = false)
    (paused : Bool) : flag paused orders = paused := by
  induction orders with
  | nil => rfl
  | cons o orders ih =>
    obtain ⟨ho, horders⟩ := List.forall_mem_cons.1 h
    rw [flag, List.foldl_cons, Order.flag_of_other ho]
    exact ih horders

theorem Waits.mono {f : Feed} {ms ms' : Nat} (h : f.Waits ms) (hle : ms' ≤ ms) : f.Waits ms' :=
  fun task htask => Nat.lt_of_le_of_lt (Nat.add_le_add_left hle f.now) (h task htask)

end Feed

namespace Supply

variable {x : Supply}

/-- Sets the flag of the feed. -/
def withFlag (paused : Bool) (x : Supply) : Supply := { x with feed := { x.feed with paused } }

theorem withFlag_self (x : Supply) : x.withFlag x.feed.paused = x := rfl

/-! ## Pieces of time -/

theorem run_cons (x : Supply) (o : Feed.Order) (orders : List Feed.Order) :
    x.run (o :: orders) = (x.apply o).run orders := rfl

theorem run_append (x : Supply) (orders more : List Feed.Order) :
    x.run (orders ++ more) = (x.run orders).run more := List.foldl_append

/-- **Time may be cut into pieces**, whatever comes after it. -/
theorem run_advance_advance (x : Supply) (ms ms' : Nat) (more : List Feed.Order) :
    x.run (.advance ms :: .advance ms' :: more) = x.run (.advance (ms + ms') :: more) := by
  rw [run_cons, run_cons, run_cons]
  refine congrArg (run · more) ?_
  simp only [apply, Feed.advance_advance]

/-- A feed that is resumed at once after it was paused has not been paused. -/
theorem run_pause_resume (h : x.feed.paused = false) (more : List Feed.Order) :
    x.run (.pause :: .resume :: more) = x.run more := by
  show (x.withFlag false).run more = x.run more
  rw [← h, withFlag_self]

/-! ## The flag of a feed that waits -/

theorem apply_advance_of_waits {ms : Nat} (h : x.feed.Waits ms) :
    x.apply (.advance ms) = { x with feed := { x.feed with now := x.feed.now + ms } } := by
  simp only [apply, Feed.advance_of_waits h]

/-- While its feed waits, what is done with other orders does not look at the flag. -/
theorem apply_withFlag (b : Bool) {o : Feed.Order} (ho : ¬ Crew.Cancels o)
    (hswitch : o.isSwitch = false) (hwaits : x.feed.Waits o.elapsed) :
    (x.withFlag b).apply o = (x.apply o).withFlag b := by
  cases o with
  | start source => exact absurd (.inr ⟨source, rfl⟩) ho
  | stop => exact absurd (.inl rfl) ho
  | pause => cases hswitch
  | resume => cases hswitch
  | drain => rfl
  | dropStore => rfl
  | advance ms =>
    have hplain : x.feed.Waits ms := hwaits
    have hflagged : (x.withFlag b).feed.Waits ms := hwaits
    rw [apply_advance_of_waits hflagged, apply_advance_of_waits hplain]
    rfl

theorem apply_switch (b : Bool) {o : Feed.Order} (hswitch : o.isSwitch = true) :
    (x.withFlag b).apply o = x.withFlag (o.flag b) := by
  cases o with
  | pause => rfl
  | resume => rfl
  | _ => cases hswitch

/-- A feed goes on waiting behind an order that does not take all of the time. -/
theorem waits_apply {o : Feed.Order} {ms : Nat} (ho : ¬ Crew.Cancels o)
    (hwaits : x.feed.Waits (o.elapsed + ms)) : (x.apply o).feed.Waits ms := by
  cases o with
  | start source => exact absurd (.inr ⟨source, rfl⟩) ho
  | stop => exact absurd (.inl rfl) ho
  | advance ms' =>
    have hfirst : x.feed.Waits ms' := hwaits.mono (Nat.le_add_right ..)
    rw [apply_advance_of_waits hfirst]
    intro task htask
    have hlt := hwaits task htask
    simp only [Feed.Order.elapsed] at hlt ⊢
    omega
  | _ => exact hwaits.mono (Nat.le_add_left ..)

/-- **While a feed waits**, orders do what they do without those that set the flag, and leave the
flag. -/
theorem run_eq_unswitched {orders : List Feed.Order} (horders : ∀ o ∈ orders, ¬ Crew.Cancels o)
    (hwaits : x.feed.Waits (Feed.elapsed orders)) (b : Bool) :
    (x.withFlag b).run orders
      = (x.run (Feed.unswitched orders)).withFlag (Feed.flag b orders) := by
  induction orders generalizing x b with
  | nil => rfl
  | cons o orders ih =>
    obtain ⟨ho, horders⟩ := List.forall_mem_cons.1 horders
    rw [Feed.elapsed] at hwaits
    cases hswitch : o.isSwitch with
    | true =>
      rw [run_cons, apply_switch b hswitch, ih horders (hwaits.mono (Nat.le_add_left ..)),
        Feed.unswitched_of_switch hswitch]
      rfl
    | false =>
      have hfirst : x.feed.Waits o.elapsed := hwaits.mono (Nat.le_add_right ..)
      have hflag : Feed.flag b (o :: orders) = Feed.flag b orders := by
        rw [Feed.flag, List.foldl_cons, Feed.Order.flag_of_other hswitch]
        rfl
      rw [run_cons, apply_withFlag b ho hswitch hfirst, ih horders (waits_apply ho hwaits), hflag,
        Feed.unswitched_of_other hswitch, run_cons]

/-- Orders that differ only in how they set the flag, and not in what they leave it at. -/
theorem run_eq_run {orders orders' : List Feed.Order} (horders : ∀ o ∈ orders, ¬ Crew.Cancels o)
    (horders' : ∀ o ∈ orders', ¬ Crew.Cancels o) (hwaits : x.feed.Waits (Feed.elapsed orders))
    (hothers : Feed.unswitched orders' = Feed.unswitched orders)
    (hflag : Feed.flag x.feed.paused orders' = Feed.flag x.feed.paused orders) :
    x.run orders' = x.run orders := by
  have hwaits' : x.feed.Waits (Feed.elapsed orders') := by
    rw [← Feed.elapsed_unswitched, hothers, Feed.elapsed_unswitched]
    exact hwaits
  rw [← x.withFlag_self, run_eq_unswitched horders' hwaits', run_eq_unswitched horders hwaits,
    hothers, hflag]

/-- **While a feed waits**, pausing and resuming it does no more than setting the flag once, at any
moment, to its last value. -/
theorem run_switched {orders before after : List Feed.Order}
    (horders : ∀ o ∈ orders, ¬ Crew.Cancels o) (hwaits : x.feed.Waits (Feed.elapsed orders))
    (hsplit : Feed.unswitched orders = before ++ after) (more : List Feed.Order) :
    x.run (orders ++ more)
      = x.run (before ++ .setFlag (Feed.flag x.feed.paused orders) :: after ++ more) := by
  let last := Feed.flag x.feed.paused orders
  have hothers : ∀ o ∈ before ++ after, o ∈ orders ∧ o.isSwitch = false := by
    intro o ho
    rw [← hsplit] at ho
    exact Feed.mem_unswitched.1 ho
  have hbefore : ∀ o ∈ before, o.isSwitch = false :=
    fun o ho => (hothers o (List.mem_append_left _ ho)).2
  have hafter : ∀ o ∈ after, o.isSwitch = false :=
    fun o ho => (hothers o (List.mem_append_right _ ho)).2
  have honce : ∀ o ∈ before ++ .setFlag last :: after, ¬ Crew.Cancels o := by
    intro o ho
    rcases List.mem_append.1 ho with ho | ho
    · exact horders o (hothers o (List.mem_append_left _ ho)).1
    rcases List.mem_cons.1 ho with rfl | ho
    · exact Feed.Order.not_cancels_setFlag last
    · exact horders o (hothers o (List.mem_append_right _ ho)).1
  have hunswitched : Feed.unswitched (before ++ .setFlag last :: after) = Feed.unswitched orders := by
    rw [Feed.unswitched_append, Feed.unswitched_of_switch (Feed.Order.isSwitch_setFlag last),
      Feed.unswitched_eq_self hbefore, Feed.unswitched_eq_self hafter, hsplit]
  have hflag : Feed.flag x.feed.paused (before ++ .setFlag last :: after) = last := by
    rw [Feed.flag_append, Feed.flag, List.foldl_cons, Feed.Order.flag_setFlag]
    exact Feed.flag_of_others hafter last
  rw [run_append, ← run_eq_run horders honce hwaits hunswitched hflag, ← run_append]

end Supply

end TraceViews
