import TraceViews.Proofs.Feed.Switching

/-!
# What the timing of a feed depends on

A worker acts at the ends of its slots, and what it does there is decided by what orders have set by
then. So the number of records that it sends is the number of its slots at whose ends it is let
(`Crew.Heeds.run`), however the time is cut into pieces. Main statement: in every run time may be
cut anywhere, and between two slots only the last setting of the flag counts (`Crew.timing_of_run`).
-/

namespace TraceViews

/-! ## What orders have set -/

/-- What orders have set: whether the feed is paused, whether its store is gone, how many workers
have been begun, and which of them is the present one, if there is one. -/
structure Feed.Setting where
  paused : Bool
  gone : Bool
  begun : Nat
  present : Option Nat

namespace Feed.Setting

/-- Nothing has been set. -/
def initial : Setting := ⟨false, false, 0, none⟩

/-- The setting behind an order. -/
def apply (s : Setting) : Feed.Order → Setting
  | .start _ => { s with begun := s.begun + 1, present := some s.begun }
  | .stop => { s with present := none }
  | .pause => { s with paused := true }
  | .resume => { s with paused := false }
  | .dropStore => { s with gone := true }
  | .advance _ => s
  | .drain => s

/-- The settings that the milliseconds end with, one after the other, in a run of orders. -/
def timeline : Setting → List Feed.Order → List Setting
  | _, [] => []
  | s, o :: orders => List.replicate o.elapsed s ++ timeline (s.apply o) orders

/-- Whether the worker with a number may send: it is the present one, the feed is not paused, and
the store is there. -/
def lets (s : Setting) (i : Nat) : Bool := s.present == some i && !s.paused && !s.gone

end Feed.Setting

/-- A time is the end of a slot of `d` milliseconds, of which the first one begins at `since`. -/
def IsSlot (d since t : Nat) : Prop := since < t ∧ d ∣ t - since

instance (d since t : Nat) : Decidable (IsSlot d since t) := inferInstanceAs (Decidable (_ ∧ _))

/-- The number of slots since `since` at whose ends the worker with a number may send. -/
def slotsLet (d since i : Nat) (settings : List Feed.Setting) : Nat :=
  (settings.zipIdx 1).countP fun m => IsSlot d since m.2 ∧ m.1.lets i

theorem slotsLet_concat (d since i : Nat) (settings : List Feed.Setting) (s : Feed.Setting) :
    slotsLet d since i (settings ++ [s])
      = slotsLet d since i settings
        + if IsSlot d since (settings.length + 1) ∧ s.lets i then 1 else 0 := by
  rw [slotsLet, slotsLet, List.zipIdx_append, List.countP_append, List.zipIdx_singleton,
    Nat.add_comm 1, List.countP_singleton]
  simp

/-- A worker that begins now has no slot behind it. -/
theorem slotsLet_of_length_le {d since i : Nat} {settings : List Feed.Setting}
    (h : settings.length ≤ since) : slotsLet d since i settings = 0 := by
  rw [slotsLet, List.countP_eq_zero]
  rintro ⟨s, t⟩ hmem hslot
  have hlt := (List.mem_zipIdx hmem).2.1
  have hslot : since < t := (of_decide_eq_true hslot).1.1
  omega

namespace Crew

variable {c c' : Crew} {d : Nat} {s : Feed.Setting} {past : List Feed.Setting}

/-- The worker that waits for the end of a slot waits for the next one. -/
theorem OnSlots.isSlot_iff (hpos : 0 < d) {now : Nat} {w : Worker} (h : OnSlots d now w)
    (hlt : now < w.task.due) : IsSlot d w.since (now + 1) ↔ w.task.due = now + 1 := by
  obtain ⟨k, hle, hdue⟩ := h
  constructor
  · rintro ⟨hsince, m, hm⟩
    have hend : now + 1 = w.since + m * d := by
      rw [Nat.mul_comm]
      omega
    have hk : k < m := Nat.lt_of_mul_lt_mul_right (a := d) (by omega)
    have hm : m ≤ k + 1 := Nat.le_of_mul_le_mul_right (c := d) (by omega) hpos
    rw [hdue, hend, Nat.le_antisymm hm hk]
  · intro heq
    refine ⟨?_, k + 1, ?_⟩
    · omega
    · rw [← heq, hdue, Nat.add_sub_cancel_left, Nat.mul_comm]

/-- A crew heeds what has been set, and has done so in all of its milliseconds: a worker has sent a
record for each slot at whose end it was let. -/
structure Heeds (d : Nat) (c : Crew) (s : Feed.Setting) (past : List Feed.Setting) : Prop where
  fixed : c.pace.longest ≤ c.pace.shortest
  pace : c.pace.shortest = d
  now : c.now = past.length
  paused : s.paused = c.paused
  gone : s.gone = c.store.isNone
  begun : s.begun = c.workers.length
  present : ∀ (i : Nat) w, c.workers[i]? = some w → (s.present = some i ↔ w.token = c.token)
  ended : ∀ w ∈ c.workers, w.ended = true → c.store = none
  slots : ∀ w ∈ c.workers, OnSlots d c.now w
  sent : ∀ (i : Nat) w, c.workers[i]? = some w → w.sent.length = slotsLet d w.since i past

/-- A worker sends a record in the next millisecond: it is on duty, its delay ends then, the feed is
not paused, and the store is there. -/
structure SendsNext (c : Crew) (w : Worker) : Prop where
  polls : c.polls w = true
  due : w.task.due = c.now + 1
  paused : c.paused = false
  store : c.store ≠ none

namespace Heeds

/-- The worker that is let is the one on duty, of a feed that can send. -/
theorem lets_iff (h : c.Heeds d s past) {i : Nat} {w : Worker} (hw : c.workers[i]? = some w) :
    s.lets i = true ↔ c.polls w = true ∧ c.paused = false ∧ c.store ≠ none := by
  have hended := h.ended w (List.mem_of_getElem? hw)
  rw [Feed.Setting.lets, h.paused, h.gone, polls]
  simp only [Bool.and_eq_true, beq_iff_eq, h.present i w hw, Bool.not_eq_true',
    Option.isNone_eq_false_iff, Option.isSome_iff_ne_none]
  constructor
  · rintro ⟨⟨htoken, hpaused⟩, hstore⟩
    exact ⟨⟨Bool.eq_false_iff.2 fun he => hstore (hended he), htoken⟩, hpaused, hstore⟩
  · rintro ⟨⟨-, htoken⟩, hpaused, hstore⟩
    exact ⟨⟨htoken, hpaused⟩, hstore⟩

/-- **A worker is let at the end of a slot** if it sends a record then. -/
theorem isSlot_and_lets_iff (hpos : 0 < d) (hc : c.Tidy) (h : c.Heeds d s past) {i : Nat}
    {w : Worker} (hw : c.workers[i]? = some w) :
    IsSlot d w.since (c.now + 1) ∧ s.lets i = true ↔ c.SendsNext w := by
  have hmem := List.mem_of_getElem? hw
  have hslot : c.polls w = true → (IsSlot d w.since (c.now + 1) ↔ w.task.due = c.now + 1) :=
    fun hpolls => (h.slots w hmem).isSlot_iff hpos (hc.waits w hmem hpolls)
  rw [h.lets_iff hw]
  constructor
  · rintro ⟨hend, hpolls, hpaused, hstore⟩
    exact ⟨hpolls, (hslot hpolls).1 hend, hpaused, hstore⟩
  · rintro ⟨hpolls, hdue, hpaused, hstore⟩
    exact ⟨(hslot hpolls).2 hdue, hpolls, hpaused, hstore⟩

/-- A worker that goes on with a fixed delay does not end. -/
theorem not_ended_goOn (hpos : 0 < d) (h : c.Heeds d s past) (now : Nat) (source : Source)
    (w : Worker) : ¬ (w.goOn c.pace now source).ended = true := by
  obtain rfl := h.pace
  rw [goOn_eq h.fixed hpos]
  exact Bool.false_ne_true

/-- What a millisecond makes of a worker, if it sends what it owes. -/
structure Becomes (d : Nat) (c : Crew) (s : Feed.Setting) (i : Nat) (w w' : Worker) : Prop where
  token : w'.token = w.token
  since : w'.since = w.since
  ended : w'.ended = true → w.ended = true ∨ c.store = none
  sent : w'.sent.length
    = w.sent.length + if IsSlot d w.since (c.now + 1) ∧ s.lets i then 1 else 0

/-- A worker that sends nothing in a millisecond owes nothing for it. -/
theorem becomes_self (hpos : 0 < d) (hc : c.Tidy) (h : c.Heeds d s past) {i : Nat} {w : Worker}
    (hw : c.workers[i]? = some w) (hnot : ¬ c.SendsNext w) : Becomes d c s i w w := by
  refine ⟨rfl, rfl, .inl, ?_⟩
  rw [if_neg (mt (h.isSlot_and_lets_iff hpos hc hw).1 hnot), Nat.add_zero]

/-- **One more millisecond** with what has been set. -/
theorem concat (h : c.Heeds d s past) (hpace : c'.pace = c.pace) (hnow : c'.now = c.now + 1)
    (hpaused : c'.paused = c.paused) (hstore : c'.store.isNone = c.store.isNone)
    (htoken : c'.token = c.token) (hlength : c'.workers.length = c.workers.length)
    (hslots : ∀ w ∈ c'.workers, OnSlots d c'.now w)
    (hworkers : ∀ (i : Nat) w', c'.workers[i]? = some w' →
      ∃ w, c.workers[i]? = some w ∧ Becomes d c s i w w') :
    c'.Heeds d s (past ++ [s]) where
  fixed := by
    rw [hpace]
    exact h.fixed
  pace := by rw [hpace, h.pace]
  now := by rw [hnow, h.now, List.length_append, List.length_singleton]
  paused := h.paused.trans hpaused.symm
  gone := h.gone.trans hstore.symm
  begun := h.begun.trans hlength.symm
  present := by
    intro i w' hw'
    obtain ⟨w, hw, hbecomes⟩ := hworkers i w' hw'
    rw [h.present i w hw, hbecomes.token, htoken]
  ended := by
    intro w' hw' hended
    obtain ⟨i, hi⟩ := List.getElem?_of_mem hw'
    obtain ⟨w, hw, hbecomes⟩ := hworkers i w' hi
    have hnone : c.store = none :=
      (hbecomes.ended hended).elim (h.ended w (List.mem_of_getElem? hw)) id
    rw [hnone] at hstore
    exact Option.isNone_iff_eq_none.1 hstore
  slots := hslots
  sent := by
    intro i w' hw'
    obtain ⟨w, hw, hbecomes⟩ := hworkers i w' hw'
    rw [slotsLet_concat, hbecomes.sent, h.sent i w hw, hbecomes.since, h.now]

end Heeds

/-- The workers behind a worker's action: it is the last one, and the others are as they were. -/
theorem HasDuty.getElem?_cases {earlier : List Worker} {w w' u : Worker} (h : c.HasDuty earlier w)
    {i : Nat} (hu : (earlier ++ [w'])[i]? = some u) :
    (c.workers[i]? = some u ∧ c.polls u = false) ∨ (c.workers[i]? = some w ∧ u = w') := by
  rw [h.workers]
  by_cases hi : i < earlier.length
  · rw [List.getElem?_append_left hi] at hu ⊢
    exact .inl ⟨hu, h.others u (List.mem_of_getElem? hu)⟩
  · rw [List.getElem?_append_right (Nat.le_of_not_lt hi), List.getElem?_singleton,
      Option.ite_none_right_eq_some] at hu
    rw [List.getElem?_append_right (Nat.le_of_not_lt hi), hu.1]
    exact .inr ⟨rfl, (Option.some.inj hu.2).symm⟩

/-- When the worker on duty acts, the others stay as they are. -/
theorem Heeds.becomes_of_hasDuty (hpos : 0 < d) (hc : c.Tidy) (h : c.Heeds d s past)
    {earlier : List Worker} {w : Worker} (hduty : c.HasDuty earlier w) (w' : Worker)
    (hw' : ∀ i : Nat, c.workers[i]? = some w → Becomes d c s i w w') {i : Nat} {u' : Worker}
    (hu' : (earlier ++ [w'])[i]? = some u') :
    ∃ u, c.workers[i]? = some u ∧ Becomes d c s i u u' := by
  rcases hduty.getElem?_cases hu' with ⟨hu, hpolls⟩ | ⟨hw, rfl⟩
  · have hnot : ¬ c.SendsNext u' :=
      fun hsends => Bool.false_ne_true (hpolls.symm.trans hsends.polls)
    exact ⟨u', hu, h.becomes_self hpos hc hu hnot⟩
  · exact ⟨w, hw, hw' i hw⟩

/-- **In a millisecond** a crew heeds what has been set. -/
theorem Beat.heeds (hpos : 0 < d) (hb : c.Beat c') (hc : c.Tidy) (h : c.Heeds d s past) :
    c'.Heeds d s (past ++ [s]) := by
  have hslots : ∀ w ∈ c'.workers, OnSlots d c'.now w := by
    obtain rfl := h.pace
    exact ((lasting_onSlots h.fixed hpos).beat hb h.slots).2
  have hlength : ∀ {earlier w w'}, c.HasDuty earlier w →
      (earlier ++ [w']).length = c.workers.length := by
    intro earlier w w' hduty
    simp [hduty.workers]
  cases hb with
  | rest hrest =>
    refine h.concat rfl rfl rfl rfl rfl rfl hslots fun i w hw =>
      ⟨w, hw, h.becomes_self hpos hc hw ?_⟩
    rintro ⟨hpolls, hdue, -⟩
    have hlater := hrest w (List.mem_of_getElem? hw) hpolls
    omega
  | @skip earlier w hduty hdue hpaused =>
    refine h.concat rfl rfl rfl rfl rfl (hlength hduty) hslots fun i u' =>
      h.becomes_of_hasDuty hpos hc hduty _ fun i hw => ?_
    have hnot : ¬ c.SendsNext w :=
      fun hsends => Bool.false_ne_true (hsends.paused.symm.trans hpaused)
    exact { h.becomes_self hpos hc hw hnot with
      ended := fun hended => absurd hended (h.not_ended_goOn hpos _ _ _) }
  | @leave earlier w hduty hdue hpaused hstore =>
    refine h.concat rfl rfl rfl rfl rfl (hlength hduty) hslots fun i u' =>
      h.becomes_of_hasDuty hpos hc hduty _ fun i hw => ?_
    have hnot : ¬ c.SendsNext w := fun hsends => hsends.store hstore
    exact { h.becomes_self hpos hc hw hnot with ended := fun _ => .inr hstore }
  | @send earlier w store hduty hdue hpaused hstore =>
    refine h.concat rfl rfl rfl (by rw [hstore]; rfl) rfl (hlength hduty) hslots fun i u' =>
      h.becomes_of_hasDuty hpos hc hduty _ fun i hw => ?_
    have hsends : c.SendsNext w := ⟨hduty.polls, hdue, hpaused, by simp [hstore]⟩
    refine ⟨rfl, rfl, fun hended => absurd hended (h.not_ended_goOn hpos _ _ _), ?_⟩
    rw [if_pos ((h.isSlot_and_lets_iff hpos hc hw).2 hsends)]
    exact List.length_append

/-! ## Runs -/

namespace Heeds

theorem pass (hpos : 0 < d) (hc : c.Tidy) (h : c.Heeds d s past) (ms : Nat) :
    (Crew.pass ms c).Heeds d s (past ++ List.replicate ms s) := by
  induction ms generalizing c past with
  | zero =>
    rw [List.replicate_zero, List.append_nil]
    exact h
  | succ ms ih =>
    have hlast := ih hc.tick ((beat_tick hc).heeds hpos hc h)
    rw [List.append_assoc] at hlast
    exact hlast

/-- A worker that is begun is the present one, and has no slot behind it. -/
theorem begin (hpos : 0 < d) (hc : c.Tidy) (h : c.Heeds d s past) (source : Source) :
    (c.cancel.begin source).Heeds d (s.apply (.start source)) past := by
  have hcases : ∀ (i : Nat) w, (c.cancel.begin source).workers[i]? = some w →
      c.workers[i]? = some w ∧ i < c.workers.length ∨
        i = c.workers.length ∧
          w = .start c.pace c.now source (c.token + 1) := by
    intro i w hw
    rw [Crew.begin] at hw
    by_cases hi : i < c.workers.length
    · exact .inl ⟨(List.getElem?_append_left hi).symm.trans hw, hi⟩
    · have hlast := (List.getElem?_append_right (Nat.le_of_not_lt hi)).symm.trans hw
      rw [List.getElem?_singleton, Option.ite_none_right_eq_some] at hlast
      refine .inr ⟨?_, (Option.some.inj hlast.2).symm⟩
      have hsame : i - c.workers.length = 0 := hlast.1
      omega
  refine ⟨h.fixed, h.pace, h.now, h.paused, h.gone, ?begun, ?present, ?ended, ?slots, ?sent⟩
  case begun =>
    show s.begun + 1 = (c.workers ++ [_]).length
    rw [h.begun, List.length_append, List.length_singleton]
  case present =>
    intro i w hw
    show some s.begun = some i ↔ w.token = c.token + 1
    rw [h.begun, Option.some.injEq]
    rcases hcases i w hw with ⟨hold, hi⟩ | ⟨rfl, rfl⟩
    · have hlt : w.token < c.token + 1 := hc.lt_cancel (List.mem_of_getElem? hold)
      omega
    · simp [Worker.start, Worker.goOn]
  case ended =>
    intro w hw hended
    rcases List.mem_append.1 hw with hw | hw
    · exact h.ended w hw hended
    · rw [List.mem_singleton.1 hw] at hended
      exact absurd hended (h.not_ended_goOn hpos _ _ _)
  case slots =>
    intro w hw
    rcases List.mem_append.1 hw with hw | hw
    · exact h.slots w hw
    · obtain rfl := h.pace
      rw [List.mem_singleton.1 hw]
      exact (lasting_onSlots h.fixed hpos).begins c.now source (c.token + 1)
  case sent =>
    intro i w hw
    rcases hcases i w hw with ⟨hold, -⟩ | ⟨-, rfl⟩
    · exact h.sent i w hold
    · exact (slotsLet_of_length_le (Nat.le_of_eq h.now.symm)).symm

/-- A worker that is stopped is not the present one any more. -/
theorem cancel (hc : c.Tidy) (h : c.Heeds d s past) :
    c.cancel.Heeds d (s.apply .stop) past := by
  refine { h with present := ?_ }
  intro i w hw
  have hlt := hc.lt_cancel (List.mem_of_getElem? hw)
  exact ⟨nofun, fun htoken => absurd htoken (Nat.ne_of_lt hlt)⟩

/-- **An order is heeded** from its millisecond on. -/
theorem apply (hpos : 0 < d) (hc : c.Tidy) (h : c.Heeds d s past) (o : Feed.Order) :
    (c.apply o).Heeds d (s.apply o) (past ++ List.replicate o.elapsed s) := by
  have hnone : past ++ List.replicate 0 s = past := List.append_nil past
  cases o with
  | advance ms => exact h.pass hpos hc ms
  | start source => exact hnone.symm ▸ h.begin hpos hc source
  | stop => exact hnone.symm ▸ h.cancel hc
  | pause => exact hnone.symm ▸ { h with paused := rfl }
  | resume => exact hnone.symm ▸ { h with paused := rfl }
  | drain =>
    refine hnone.symm ▸ { h with gone := ?_, ended := ?_ }
    · exact h.gone.trans Option.isNone_map.symm
    · intro w hw hended
      exact Option.map_eq_none_iff.2 (h.ended w hw hended)
  | dropStore => exact hnone.symm ▸ { h with gone := rfl, ended := fun _ _ _ => rfl }

theorem run (hpos : 0 < d) (hc : c.Tidy) (h : c.Heeds d s past) (orders : List Feed.Order) :
    (c.run orders).Heeds d (orders.foldl Feed.Setting.apply s) (past ++ s.timeline orders) := by
  induction orders generalizing c s past with
  | nil =>
    rw [Feed.Setting.timeline, List.append_nil]
    exact h
  | cons o orders ih =>
    have hlast := ih (hc.apply o) (h.apply hpos hc o)
    rw [List.append_assoc] at hlast
    exact hlast

end Heeds

theorem heeds_initial {pace : Pace} (hfixed : pace.longest ≤ pace.shortest) :
    (initial pace).Heeds pace.shortest .initial [] :=
  ⟨hfixed, rfl, rfl, rfl, rfl, rfl, nofun, nofun, nofun, nofun⟩

/-- The timing of a run: `x` is a feed with its store behind orders, and `c` is its crew. -/
structure Timing (d : Nat) (orders : List Feed.Order) (x : Supply) (c : Crew) : Prop where
  /-- The crew is that of the feed. -/
  supply : c.supply = x
  /-- Time may be cut into pieces, whatever follows. -/
  cut : ∀ ms ms' more,
    x.run (.advance ms :: .advance ms' :: more) = x.run (.advance (ms + ms') :: more)
  /-- A feed that is paused and resumed at once has not been paused. -/
  blink : x.feed.paused = false → ∀ more, x.run (.pause :: .resume :: more) = x.run more
  /-- Between two slots of the worker on duty, pausing and resuming is as good as setting the flag
  once to its last value, before, among or behind the other orders. -/
  switched : ∀ w ∈ c.onDuty, ∀ k, w.since + k * d ≤ x.feed.now →
    ∀ switching, (∀ o ∈ switching, ¬ Cancels o) →
      x.feed.now + Feed.elapsed switching < w.since + (k + 1) * d →
      ∀ before after, Feed.unswitched switching = before ++ after → ∀ more,
        x.run (switching ++ more)
          = x.run (before ++ .setFlag (Feed.flag x.feed.paused switching) :: after ++ more)
  /-- A worker has sent a record for each of its slots at whose end the settings let it. -/
  sent : ∀ (i : Nat) w, c.workers[i]? = some w →
    w.sent.length = slotsLet d w.since i (Feed.Setting.initial.timeline orders)

section Run

variable {pace : Pace} (hfixed : pace.longest ≤ pace.shortest) (hpos : 0 < pace.shortest)
include hfixed hpos

/-- **Timing.** In every run, time may be cut into pieces anywhere; between two slots of the worker
on duty, only the last setting of the flag counts; and a worker sends a record for each slot at whose
end the settings let it. -/
theorem timing_of_run (orders : List Feed.Order) :
    Timing pace.shortest orders ((Supply.initial pace).run orders) ((initial pace).run orders) := by
  have hinitial : (initial pace).Tidy := tidy_initial pace
  have htidy : ((initial pace).run orders).Tidy := hinitial.run orders
  have hsupply : ((initial pace).run orders).supply = (Supply.initial pace).run orders :=
    supply_run hinitial orders
  have hheeds := (heeds_initial hfixed).run hpos hinitial orders
  refine ⟨hsupply, Supply.run_advance_advance _, Supply.run_pause_resume, ?switched, hheeds.sent⟩
  case switched =>
    intro w hw k hle switching hswitching hlt before after hsplit more
    refine Supply.run_switched hswitching ?_ hsplit more
    rw [← hsupply] at hle hlt ⊢
    intro task htask
    have hmem := (List.mem_filter.1 hw).1
    have hwaits := htidy.waits w hmem (List.mem_filter.1 hw).2
    obtain rfl : w.task = task :=
      Option.some.inj ((htidy.task_eq_of_onDuty hw).symm.trans htask)
    have hslot : nextSlot pace.shortest w.since ((initial pace).run orders).now
        = w.since + (k + 1) * pace.shortest :=
      nextSlot_eq hle (Nat.lt_of_le_of_lt (Nat.le_add_right ..) hlt)
    rw [(hheeds.slots w hmem).due_eq hwaits, hslot]
    exact hlt

end Run

/-- A feed that is paused twice, once over the end of a slot, and is restarted between two slots. -/
def flickering (dice : Dice) : List Feed.Order :=
  [.start ⟨dice, .counting 100 5, []⟩, .advance 10, .pause, .advance 5, .resume, .advance 5,
    .pause, .advance 10, .resume, .advance 3, .start ⟨dice, .counting 0 1, []⟩, .advance 12]

/-- The first worker has sent two records in its three slots, and the second one has sent one. What is
switched before the next slot ends does not count. -/
theorem timing_of_flickering :
    let pace : Pace := ⟨10, 10⟩
    let x := (Supply.initial pace).run (flickering ⟨id, 0⟩)
    (pace.longest ≤ pace.shortest ∧ 0 < pace.shortest) ∧
      (∃ w w', ((initial pace).run (flickering ⟨id, 0⟩)).workers = [w, w'] ∧
        w.sent.length = 2 ∧ w'.sent.length = 1) ∧
      ∀ more, x.run (.pause :: .advance 4 :: .resume :: .advance 2 :: .pause :: more)
        = x.run (.advance 4 :: .pause :: .advance 2 :: more) := by
  intro pace x
  have hfixed : pace.longest ≤ pace.shortest := Nat.le_refl 10
  have hpos : 0 < pace.shortest := Nat.succ_pos 9
  obtain ⟨hsupply, -, -, hswitched, hsent⟩ := timing_of_run hfixed hpos (flickering ⟨id, 0⟩)
  let c := (initial pace).run (flickering ⟨id, 0⟩)
  have hsinces : c.workers.map Worker.since = [0, 33] := by decide +kernel
  have hduty : c.onDuty.map Worker.since = [33] := by decide +kernel
  have hnow : x.feed.now = 45 := by
    rw [← show c.supply = x from hsupply]
    decide +kernel
  refine ⟨⟨hfixed, hpos⟩, ?sent, ?switched⟩
  case sent =>
    obtain ⟨w, ws, hworkers, hw, hws⟩ := List.map_eq_cons_iff.1 hsinces
    obtain ⟨w', ws', rfl, hw', hws'⟩ := List.map_eq_cons_iff.1 hws
    obtain rfl := List.map_eq_nil_iff.1 hws'
    have hfirst : c.workers[0]? = some w := by rw [hworkers]; rfl
    have hsecond : c.workers[1]? = some w' := by rw [hworkers]; rfl
    refine ⟨w, w', hworkers, ?_, ?_⟩
    · rw [hsent 0 w hfirst, hw]
      decide +kernel
    · rw [hsent 1 w' hsecond, hw']
      decide +kernel
  case switched =>
    intro more
    obtain ⟨w, hw, hsince⟩ := List.mem_map.1 (hduty ▸ List.mem_singleton_self 33)
    have hle : w.since + 1 * pace.shortest ≤ x.feed.now := by
      rw [hsince, hnow]
      decide
    refine hswitched w hw 1 hle [.pause, .advance 4, .resume, .advance 2, .pause] ?_ ?_ [.advance 4]
      [.advance 2] rfl more
    · simp [Cancels]
    · rw [hsince, show ((Supply.initial pace).run (flickering ⟨id, 0⟩)).feed.now = 45 from hnow]
      decide

end Crew

end TraceViews
