import TraceViews.Feed.Source
import TraceViews.Proofs.View.Nearest

/-!
# Counters and the order of time

A counter wraps around at the end of its range, so that its readings are in the order of time only
as far as the count without wrapping stays in the range. A store that is filled from a source with a
counter holds the first of the readings, wherever it was drained. Main statement: its records are in
order exactly as long as the count of the last one is in the range (`inOrder_iff_unwrapped_le`).
-/

namespace TraceViews

variable {start step : Timestamp} {n k : Nat}

namespace Clock

/-! ## Readings -/

/-- What a counter would read the `i`-th time, from zero on, if its range had no end. -/
def unwrapped (start step : Timestamp) (i : Nat) : Int := start.toInt + i * max step.toInt 0

theorem readings_counter (next step : Timestamp) (n : Nat) :
    (counter next step).readings n =
      (List.range n).map fun i : Nat => Int64.ofInt (next.toInt + i * step.toInt) := by
  induction n generalizing next with
  | zero => rfl
  | succ n ih =>
    have hfirst : Int64.ofInt (next.toInt + (0 : Nat) * step.toInt) = next := by simp
    have hnext (i : Nat) : Int64.ofInt ((next + step).toInt + i * step.toInt)
        = Int64.ofInt (next.toInt + (i + 1 : Nat) * step.toInt) := by
      rw [Int64.ofInt_add, Int64.ofInt_toInt, Int64.ofInt_add, Int64.ofInt_toInt, Int.natCast_succ,
        Int.add_mul, Int.one_mul, Int.add_comm (i * step.toInt), Int64.ofInt_add step.toInt,
        Int64.ofInt_toInt, Int64.add_assoc]
    rw [List.range_succ_eq_map, List.map_cons, List.map_map, hfirst, readings, read, ih]
    exact congrArg _ (List.map_congr_left fun i _ => hnext i)

theorem toInt_steady (step : Timestamp) :
    (if step < 0 then 0 else step).toInt = max step.toInt 0 := by
  have hzero : (0 : Timestamp).toInt = 0 := rfl
  split
  · next h =>
    rw [Int64.lt_iff_toInt_lt, hzero] at h
    omega
  · next h =>
    rw [Int64.lt_iff_toInt_lt, hzero] at h
    omega

/-- **The readings of a counter** are the count, each reduced into the range. -/
theorem readings_counting (start step : Timestamp) (n : Nat) :
    (counting start step).readings n =
      (List.range n).map fun i => Int64.ofInt (unwrapped start step i) := by
  rw [counting, readings_counter, toInt_steady]
  rfl

/-! ## The end of the range -/

theorem unwrapped_zero : unwrapped start step 0 = start.toInt := by
  simp [unwrapped]

theorem unwrapped_succ :
    unwrapped start step (k + 1) = unwrapped start step k + max step.toInt 0 := by
  rw [unwrapped, unwrapped, Int.natCast_succ, Int.add_mul, Int.one_mul, Int.add_assoc]

theorem unwrapped_mono (h : k ≤ n) : unwrapped start step k ≤ unwrapped start step n := by
  induction h with
  | refl => exact Int.le_refl _
  | step _ ih =>
    rw [Nat.succ_eq_add_one, unwrapped_succ]
    omega

theorem minValue_le_unwrapped (start step : Timestamp) (k : Nat) :
    Int64.minValue.toInt ≤ unwrapped start step k := by
  have hstart : unwrapped start step 0 ≤ unwrapped start step k := unwrapped_mono (Nat.zero_le k)
  rw [unwrapped_zero] at hstart
  exact Int.le_trans start.minValue_le_toInt hstart

/-- In the range nothing is wrapped. -/
theorem toInt_ofInt_unwrapped (h : unwrapped start step k ≤ Int64.maxValue.toInt) :
    (Int64.ofInt (unwrapped start step k)).toInt = unwrapped start step k := by
  have hlow : Int64.minValue.toInt = -2 ^ 63 := rfl
  have hhigh : Int64.maxValue.toInt = 2 ^ 63 - 1 := rfl
  have hmin := minValue_le_unwrapped start step k
  exact Int64.toInt_ofInt_of_le (by omega) (by omega)

/-- **The first reading past the end of the range** is before the one in front of it. -/
theorem ofInt_unwrapped_succ_lt (h : unwrapped start step k ≤ Int64.maxValue.toInt)
    (hnext : Int64.maxValue.toInt < unwrapped start step (k + 1)) :
    Int64.ofInt (unwrapped start step (k + 1)) < Int64.ofInt (unwrapped start step k) := by
  have hhigh : Int64.maxValue.toInt = 2 ^ 63 - 1 := rfl
  have hstep := step.toInt_lt
  have hwrap (x : Int) : Int64.ofInt x = Int64.ofInt (x - 2 ^ 64) := by
    rw [Int64.ofInt_sub]
    simp
  rw [Int64.lt_iff_toInt_lt, toInt_ofInt_unwrapped h, hwrap]
  rw [unwrapped_succ] at hnext ⊢
  rw [Int64.toInt_ofInt_of_le (by omega) (by omega)]
  omega

/-- **The readings are in order** exactly if none of them is wrapped. -/
theorem pairwise_readings_iff :
    ((counting start step).readings n).Pairwise (· ≤ ·) ↔
      ∀ k < n, unwrapped start step k ≤ Int64.maxValue.toInt := by
  rw [readings_counting, List.pairwise_map]
  constructor
  · intro h k hk
    have horder := List.pairwise_iff_getElem.1 h
    -- the first reading is in the range, and so is one behind it that is not before it
    induction k with
    | zero =>
      rw [unwrapped_zero]
      exact start.toInt_le
    | succ k ih =>
      rw [← Int.not_lt]
      intro hnext
      have hle := horder k (k + 1) (by simp; omega) (by simp; omega) (Nat.lt_succ_self k)
      simp only [List.getElem_range] at hle
      exact Int64.not_le.2 (ofInt_unwrapped_succ_lt (ih (by omega)) hnext) hle
  · intro h
    refine List.pairwise_lt_range.imp_of_mem fun {i j} hi hj hlt => ?_
    have hi := h i (List.mem_range.1 hi)
    have hj := h j (List.mem_range.1 hj)
    rw [Int64.le_iff_toInt_le, toInt_ofInt_unwrapped hi, toInt_ofInt_unwrapped hj]
    exact unwrapped_mono (Nat.le_of_lt hlt)

/-- The count of the last reading is the largest. -/
theorem forall_unwrapped_le_iff {bound : Int} :
    (∀ k < n + 1, unwrapped start step k ≤ bound) ↔ unwrapped start step n ≤ bound :=
  ⟨fun h => h n (Nat.lt_succ_self n),
    fun h _ hk => Int.le_trans (unwrapped_mono (Nat.le_of_lt_succ hk)) h⟩

/-- The first of the readings are those of the counter itself. -/
theorem eq_readings_of_prefix {times : List Timestamp}
    (h : times <+: (counting start step).readings n) :
    times = (counting start step).readings times.length := by
  have hlength := h.length_le
  rw [readings_counting, List.length_map, List.length_range] at hlength
  have htake := List.prefix_iff_eq_take.1 h
  rwa [readings_counting, ← List.map_take, List.take_range, Nat.min_eq_left hlength,
    ← readings_counting] at htake

end Clock

/-! ## Stores -/

theorem Source.map_timestamp_take (source : Source) (n : Nat) :
    (source.take n).1.map Record.timestamp = source.clock.readings n := by
  induction n generalizing source with
  | zero => rfl
  | succ n ih => exact congrArg (source.clock.read.1 :: ·) (ih source.next.2)

theorem Source.length_take (source : Source) (n : Nat) : (source.take n).1.length = n := by
  induction n generalizing source with
  | zero => rfl
  | succ n ih => exact congrArg (· + 1) (ih source.next.2)

/-- The records of a store are in order if their times are. -/
theorem inOrder_timestampAt_iff (s : Store) :
    InOrder s.timestampAt ↔ (s.records.toList.map Record.timestamp).Pairwise (· ≤ ·) := by
  rw [List.pairwise_map]
  constructor
  · intro h
    refine List.pairwise_iff_getElem.2 fun i j hi hj hij => ?_
    exact h ⟨i, by simpa using hi⟩ ⟨j, by simpa using hj⟩ (Nat.le_of_lt hij)
  · intro h
    exact inOrder_of_pairwise h

section Filling

variable {source : Source} {s : Store} {inHand : List Record} {l : Ledger}

/-- The visible records are in order as far as none of their times is wrapped. -/
theorem Store.Accords.inOrder_iff (h : s.Accords inHand l) (hclears : l.clears = 0)
    (hclock : source.clock = .counting start step) (hsent : l.sent = (source.take n).1) :
    InOrder s.timestampAt ↔
      ∀ k < s.records.size, Clock.unwrapped start step k ≤ Int64.maxValue.toInt := by
  have hprefix : s.records.toList <+: (source.take n).1 :=
    ⟨_, ((h.sent_eq_of_clears hclears).symm.trans hsent)⟩
  have htimes := hprefix.map Record.timestamp
  rw [source.map_timestamp_take, hclock] at htimes
  rw [inOrder_timestampAt_iff, Clock.eq_readings_of_prefix htimes, Clock.pairwise_readings_iff,
    List.length_map, Array.length_toList]

/-- When nothing waits any more, the last record that was sent decides. -/
theorem Store.Accords.inOrder_iff_last (h : s.Accords inHand l) (hclears : l.clears = 0)
    (hclock : source.clock = .counting start step) (hsent : l.sent = (source.take (n + 1)).1)
    (hhand : inHand = []) (hqueue : s.queue = #[]) :
    InOrder s.timestampAt ↔ Clock.unwrapped start step n ≤ Int64.maxValue.toInt := by
  have hall := h.sent_eq_of_clears hclears
  rw [hsent, hhand, hqueue, List.append_nil, List.append_nil] at hall
  have hsize : s.records.size = n + 1 := by
    rw [← Array.length_toList, ← hall, source.length_take]
  rw [h.inOrder_iff hclears hclock hsent, hsize, Clock.forall_unwrapped_le_iff]

end Filling

/-- Nothing waits behind a drain. -/
theorem Store.queue_drain (s : Store) : s.drain.2.queue = #[] := by
  obtain ⟨hnothing, hsome⟩ := s.drain_spec
  by_cases hqueue : s.queue.toList = []
  · rw [hnothing hqueue]
    exact Array.toList_eq_nil_iff.1 hqueue
  · obtain ⟨span, s', hdrain, -, hempty⟩ := hsome hqueue
    rw [hdrain]
    exact hempty

namespace Workspace

/-- Records that are queued one after the other, and a drain. -/
def filling (records : List Record) : List Operation := records.map .enqueue ++ [.drain]

theorem ledger_filling (w : Workspace) (records : List Record) :
    (w.ledger (filling records)).sent = records ∧ (w.ledger (filling records)).clears = 0 ∧
      (w.run (filling records)).store.queue = #[] := by
  induction records generalizing w with
  | nil =>
    have hnone (span : Option Span) (batch : Span → List Record) :
        Ledger.sent ((span.map fun x => Entry.batch (batch x)).toList ++ []) = [] ∧
          Ledger.clears ((span.map fun x => Entry.batch (batch x)).toList ++ []) = 0 := by
      cases span <;> exact ⟨rfl, rfl⟩
    obtain ⟨hsent, hclears⟩ := hnone w.drain.1 w.drain.2.store.recordsIn
    exact ⟨hsent, hclears, w.store.queue_drain⟩
  | cons r records ih =>
    obtain ⟨hsent, hclears, hqueue⟩ := ih (w.apply (.enqueue r))
    exact ⟨congrArg (r :: ·) hsent, hclears, hqueue⟩

/-- **A counter keeps the order of time up to the end of its range.** Its readings are the count,
reduced into the range, and they are in order exactly if the count of the last one is in the range.
So it is with the records of a store that was sent the records of a source with that counter, and
nothing else: wherever drains came in between, alone or among the senders, those that are visible
are in order exactly if the count of each is in the range, and all of them are if the last one is.
-/
theorem inOrder_iff_unwrapped_le (start step : Timestamp) (n : Nat) :
    (Clock.counting start step).readings (n + 1) =
      (List.range (n + 1)).map (fun i => Int64.ofInt (Clock.unwrapped start step i)) ∧
    (((Clock.counting start step).readings (n + 1)).Pairwise (· ≤ ·) ↔
      Clock.unwrapped start step n ≤ Int64.maxValue.toInt) ∧
    ∀ source : Source, source.clock = .counting start step →
      (∀ ops : List Operation, (initial.ledger ops).sent = (source.take (n + 1)).1 →
        (initial.ledger ops).clears = 0 →
        let s := (initial.run ops).store
        (InOrder s.timestampAt ↔
          ∀ k < s.records.size, Clock.unwrapped start step k ≤ Int64.maxValue.toInt) ∧
        (s.queue = #[] → (InOrder s.timestampAt ↔
          Clock.unwrapped start step n ≤ Int64.maxValue.toInt))) ∧
      (∀ steps : List ThreadStep,
        ((SharedStore.idle .empty).ledger steps).sent = (source.take (n + 1)).1 →
        ((SharedStore.idle .empty).ledger steps).clears = 0 →
        let t := (SharedStore.idle .empty).run steps
        (InOrder t.store.timestampAt ↔
          ∀ k < t.store.records.size, Clock.unwrapped start step k ≤ Int64.maxValue.toInt) ∧
        (t.batch.toList = [] → t.store.queue = #[] → (InOrder t.store.timestampAt ↔
          Clock.unwrapped start step n ≤ Int64.maxValue.toInt))) ∧
      ((∀ ops : List Operation, (initial.ledger ops).sent = (source.take (n + 1)).1 →
        (initial.ledger ops).clears = 0 → InOrder (initial.run ops).store.timestampAt) ↔
          Clock.unwrapped start step n ≤ Int64.maxValue.toInt) := by
  have hops (ops : List Operation) : (initial.run ops).store.Accords [] (initial.ledger ops) :=
    accords_run (w := initial) (l := []) .empty ops
  refine ⟨Clock.readings_counting start step (n + 1), ?_, fun source hclock => ⟨?_, ?_, ?_⟩⟩
  · rw [Clock.pairwise_readings_iff, Clock.forall_unwrapped_le_iff]
  · intro ops hsent hclears s
    exact ⟨(hops ops).inOrder_iff hclears hclock hsent,
      (hops ops).inOrder_iff_last hclears hclock hsent rfl⟩
  · intro steps hsent hclears t
    have h : t.store.Accords t.batch.toList ((SharedStore.idle .empty).ledger steps) :=
      SharedStore.accords_run (t := .idle .empty) (l := []) .empty steps
    exact ⟨h.inOrder_iff hclears hclock hsent, h.inOrder_iff_last hclears hclock hsent⟩
  · constructor
    · intro h
      obtain ⟨hsent, hclears, hqueue⟩ := ledger_filling initial (source.take (n + 1)).1
      exact ((hops _).inOrder_iff_last hclears hclock hsent rfl hqueue).1 (h _ hsent hclears)
    · intro hlast ops hsent hclears
      have hsize : (initial.run ops).store.records.size ≤ n + 1 := by
        have hall := (hops ops).sent_eq_of_clears hclears
        rw [hsent] at hall
        have hlength := congrArg List.length hall
        rw [source.length_take, List.length_append, Array.length_toList] at hlength
        omega
      refine ((hops ops).inOrder_iff hclears hclock hsent).2 fun k hk => ?_
      exact Clock.forall_unwrapped_le_iff.2 hlast k (by omega)

/-- One below the end of the range a counter has two readings in order. A third one is not, and a
drain that comes too early for it does not notice. -/
theorem inOrder_up_to_the_end :
    let source : Source := ⟨.seeded 7, .counting 9223372036854775806 1, ["net"]⟩
    let a := source.next.1
    let b := source.next.2.next.1
    let c := source.next.2.next.2.next.1
    let early : List Operation := [.enqueue a, .enqueue b, .drain, .enqueue c]
    let late : List Operation := [.enqueue a, .drain, .enqueue b, .enqueue c, .drain]
    let steps : List ThreadStep := [.send a, .look, .send b, .look, .look, .publish]
    InOrder (initial.run early).store.timestampAt ∧
      ¬ InOrder (initial.run late).store.timestampAt ∧
      InOrder ((SharedStore.idle .empty).run steps).store.timestampAt := by
  intro source a b c early late steps
  obtain ⟨-, -, hthree⟩ := inOrder_iff_unwrapped_le 9223372036854775806 1 2
  obtain ⟨-, -, htwo⟩ := inOrder_iff_unwrapped_le 9223372036854775806 1 1
  obtain ⟨hops, -, -⟩ := hthree source rfl
  obtain ⟨-, hsteps, -⟩ := htwo source rfl
  obtain ⟨hearly, -⟩ := hops early rfl rfl
  obtain ⟨-, hlate⟩ := hops late rfl rfl
  obtain ⟨-, hshared⟩ := hsteps steps rfl rfl
  exact ⟨hearly.2 (by decide), fun h => absurd ((hlate rfl).1 h) (by decide),
    (hshared rfl rfl).2 (by decide)⟩

end Workspace

end TraceViews
