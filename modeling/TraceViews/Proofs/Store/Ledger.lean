import TraceViews.Proofs.Workspace.Operations

/-!
# The ledger of a store

A ledger notes what happens to a store: the records that are sent, the batches that drains make
visible, and the clears. A store accords with its ledger (`Store.Accords`) if every record that was
sent is found once, in order, in the batches, in the hand of a drain, or in the queue, and if the
visible records are the batches since the last clear. One lemma for each kind of entry says how a
store and its ledger stay in accord.
-/

namespace TraceViews

/-- An entry of a ledger. -/
inductive Entry where
  | sent (r : Record)
  | batch (records : List Record)
  | clear

namespace Entry

def isClear : Entry → Bool
  | clear => true
  | _ => false

def sent? : Entry → Option Record
  | sent r => some r
  | _ => none

def batch? : Entry → Option (List Record)
  | batch records => some records
  | _ => none

end Entry

/-- What has happened to a store, from the first event to the last. -/
abbrev Ledger := List Entry

namespace Ledger

/-- The records that were sent, in the order of sending. -/
def sent (l : Ledger) : List Record := l.filterMap Entry.sent?

/-- The batches of the drains that had records to move, in the order of draining. -/
def batches (l : Ledger) : List (List Record) := l.filterMap Entry.batch?

/-- The number of clears. -/
def clears (l : Ledger) : Nat := l.countP Entry.isClear

/-- What has happened since the last clear, or from the beginning if there was none. -/
def sinceClear (l : Ledger) : Ledger := (l.reverse.takeWhile fun e => !e.isClear).reverse

/-- The entries of a run, if each step adds at most one. -/
def along {σ α : Type} (step : σ → α → σ) (note : σ → α → Option Entry) : σ → List α → Ledger
  | _, [] => []
  | s, a :: as => (note s a).toList ++ along step note (step s a) as

@[simp] theorem sent_append (l more : Ledger) : sent (l ++ more) = l.sent ++ more.sent :=
  List.filterMap_append

@[simp] theorem batches_append (l more : Ledger) :
    batches (l ++ more) = l.batches ++ more.batches :=
  List.filterMap_append

@[simp] theorem clears_append (l more : Ledger) : clears (l ++ more) = l.clears + more.clears :=
  List.countP_append

variable {l more : Ledger} {e : Entry}

theorem sinceClear_concat_clear : sinceClear (l ++ [.clear]) = [] := by
  simp [sinceClear, Entry.isClear]

theorem sinceClear_concat (h : e.isClear = false) :
    sinceClear (l ++ [e]) = sinceClear l ++ [e] := by
  simp [sinceClear, h]

theorem sinceClear_suffix (l : Ledger) : sinceClear l <:+ l := by
  have hprefix := List.takeWhile_prefix (fun e : Entry => !e.isClear) (l := l.reverse)
  rw [← List.reverse_suffix, List.reverse_reverse] at hprefix
  exact hprefix

theorem sinceClear_append (h : clears more = 0) :
    sinceClear (l ++ more) = sinceClear l ++ more := by
  induction more generalizing l with
  | nil => simp
  | cons e more ih =>
    have hall : ∀ e' ∈ e :: more, e'.isClear = false := by
      simpa [clears, List.countP_eq_zero] using h
    have hmore : clears more = 0 := by
      simpa [clears, List.countP_eq_zero] using (List.forall_mem_cons.1 hall).2
    rw [← List.singleton_append, ← List.append_assoc, ih hmore,
      sinceClear_concat (List.forall_mem_cons.1 hall).1, List.append_assoc]

end Ledger

/-- The visible records at the positions of a span. -/
def Store.recordsIn (s : Store) (span : Span) : List Record :=
  (s.records.extract span.start span.stop).toList

/-! ## Drains -/

/-- What a drain makes of the visible records: behind those that there were, at the positions of the
span, there is now the batch. -/
structure Store.Appends (s s' : Store) (span : Span) (batch : List Record) : Prop where
  start : span.start = s.records.size
  stop : span.stop = s'.records.size
  there : s'.recordsIn span = batch
  behind : s'.records.toList = s.records.toList ++ batch
  generation : s'.generation = s.generation + 1

theorem Store.appends_of_eq {s s' : Store} {batch : Array Record}
    (hrecords : s'.records = s.records ++ batch) (hgeneration : s'.generation = s.generation + 1) :
    s.Appends s' ⟨s.records.size, (s.records ++ batch).size⟩ batch.toList where
  start := rfl
  stop := by rw [hrecords]
  there := by simp [recordsIn, hrecords, Array.extract_append]
  behind := by rw [hrecords, Array.toList_append]
  generation := hgeneration

/-- **What a drain does**: nothing where nothing is queued; otherwise it appends the queue. -/
theorem Store.drain_spec (s : Store) :
    (s.queue.toList = [] → s.drain = (none, s)) ∧
      (s.queue.toList ≠ [] → ∃ span s', s.drain = (some span, s') ∧
        s.Appends s' span s.queue.toList ∧ s'.queue = #[]) := by
  cases h : s.queue.isEmpty with
  | true =>
    have hqueue : s.queue.toList = [] := by simpa using h
    rw [drain, if_pos h]
    exact ⟨fun _ => rfl, fun hne => absurd hqueue hne⟩
  | false =>
    have hqueue : s.queue.toList ≠ [] := by simpa using h
    rw [drain, if_neg (Bool.eq_false_iff.1 h)]
    exact ⟨fun hempty => absurd hempty hqueue,
      fun _ => ⟨_, _, rfl, appends_of_eq rfl rfl, rfl⟩⟩

/-! ## Accord -/

/-- A store accords with its ledger, where the drain that is under way, if there is one, has some
records in hand. -/
structure Store.Accords (s : Store) (inHand : List Record) (l : Ledger) : Prop where
  /-- The records that were sent are the drained ones, those in hand and those in the queue. -/
  sent : l.sent = l.batches.flatten ++ inHand ++ s.queue.toList
  /-- The visible records are those of the batches since the last clear. -/
  visible : s.records.toList = l.sinceClear.batches.flatten
  /-- Every drain that had records to move is counted, and every clear. -/
  generation : s.generation = l.batches.length + l.clears
  /-- A drain without records leaves no batch. -/
  nonempty : ∀ batch ∈ l.batches, batch ≠ []

namespace Store.Accords

variable {s s' : Store} {inHand : List Record} {l more : Ledger}

theorem empty : Store.empty.Accords [] [] :=
  ⟨rfl, rfl, rfl, nofun⟩

/-! ### Entries -/

theorem send (h : s.Accords inHand l) (r : Record) :
    (s.enqueue r).Accords inHand (l ++ [.sent r]) := by
  have hbatches : Ledger.batches (l ++ [.sent r]) = l.batches := by
    rw [Ledger.batches_append]
    exact List.append_nil _
  constructor
  case sent =>
    rw [hbatches, Ledger.sent_append, h.sent, enqueue, Array.toList_push]
    exact List.append_assoc ..
  case visible =>
    rw [Ledger.sinceClear_concat rfl, Ledger.batches_append]
    exact h.visible.trans (by rw [show Ledger.batches [.sent r] = [] from rfl, List.append_nil])
  case generation =>
    rw [hbatches, Ledger.clears_append]
    exact h.generation
  case nonempty =>
    rw [hbatches]
    exact h.nonempty

/-- Records that are taken from the queue are in hand. -/
theorem take {queue : Array Record} {more : List Record} (h : s.Accords inHand l)
    (hqueue : s.queue.toList = more ++ queue.toList) :
    Store.Accords { s with queue } (inHand ++ more) l := by
  refine ⟨?_, h.visible, h.generation, h.nonempty⟩
  rw [h.sent, hqueue]
  simp only [List.append_assoc]

/-- What a drain has in hand becomes visible. -/
theorem batch (h : s.Accords inHand l) (hne : inHand ≠ [])
    (hrecords : s'.records.toList = s.records.toList ++ inHand)
    (hgeneration : s'.generation = s.generation + 1) (hqueue : s'.queue = s.queue) :
    s'.Accords [] (l ++ [.batch inHand]) := by
  have hbatches : ∀ l : Ledger, Ledger.batches (l ++ [.batch inHand]) = l.batches ++ [inHand] :=
    fun l => Ledger.batches_append l _
  constructor
  case sent =>
    rw [hbatches, hqueue, List.flatten_concat, List.append_nil, ← h.sent, Ledger.sent_append]
    exact List.append_nil _
  case visible =>
    rw [Ledger.sinceClear_concat rfl, hbatches, List.flatten_concat, hrecords, h.visible]
  case generation =>
    rw [hbatches, hgeneration, h.generation, Ledger.clears_append, List.length_append]
    exact Nat.add_right_comm ..
  case nonempty =>
    rw [hbatches]
    exact List.forall_mem_append.2 ⟨h.nonempty, List.forall_mem_singleton.2 hne⟩

theorem clear (h : s.Accords inHand l) : s.clear.Accords inHand (l ++ [.clear]) := by
  have hbatches : Ledger.batches (l ++ [.clear]) = l.batches := by
    rw [Ledger.batches_append]
    exact List.append_nil _
  constructor
  case sent =>
    rw [hbatches, Ledger.sent_append]
    exact (List.append_nil _).trans h.sent
  case visible =>
    rw [Ledger.sinceClear_concat_clear]
    rfl
  case generation =>
    rw [hbatches, Ledger.clears_append, ← Nat.add_assoc, ← h.generation]
    rfl
  case nonempty =>
    rw [hbatches]
    exact h.nonempty

/-- A drain at one go leaves the batch at the positions that it gives. -/
theorem drain (h : s.Accords [] l) :
    s.drain.2.Accords []
      (l ++ (s.drain.1.map fun span => Entry.batch (s.drain.2.recordsIn span)).toList) := by
  obtain ⟨hnothing, hsome⟩ := s.drain_spec
  by_cases hqueue : s.queue.toList = []
  · rw [hnothing hqueue]
    simpa using h
  · obtain ⟨span, s', hdrain, happends, hempty⟩ := hsome hqueue
    rw [hdrain, Option.map_some, happends.there]
    exact (h.take (List.append_nil _).symm).batch hqueue happends.behind happends.generation hempty

/-- What single steps keep in accord with their entries, a run keeps in accord with its ledger. -/
theorem along {σ α : Type} (store : σ → Store) (hand : σ → List Record) {step : σ → α → σ}
    {note : σ → α → Option Entry}
    (hstep : ∀ (x : σ) (a : α) (l : Ledger), (store x).Accords (hand x) l →
      (store (step x a)).Accords (hand (step x a)) (l ++ (note x a).toList))
    {x : σ} (h : (store x).Accords (hand x) l) (as : List α) :
    (store (as.foldl step x)).Accords (hand (as.foldl step x))
      (l ++ Ledger.along step note x as) := by
  induction as generalizing x l with
  | nil => simpa [Ledger.along] using h
  | cons a as ih =>
    rw [List.foldl_cons, Ledger.along, ← List.append_assoc]
    exact ih (hstep x a l h)

/-! ### Consequences -/

/-- As long as the generation is the same the visible records are the same. -/
theorem records_eq (h : s.Accords inHand l) {inHand' : List Record}
    (h' : s'.Accords inHand' (l ++ more)) (hgeneration : s'.generation = s.generation) :
    s'.records = s.records := by
  have hcounts := h'.generation
  rw [hgeneration, h.generation, Ledger.batches_append, Ledger.clears_append,
    List.length_append] at hcounts
  -- in between nothing was drained and nothing was cleared
  have hbatches : more.batches = [] := List.length_eq_zero_iff.1 (by omega)
  have hclears : more.clears = 0 := by omega
  rw [← Array.toList_inj, h'.visible, h.visible, Ledger.sinceClear_append hclears,
    Ledger.batches_append, hbatches, List.append_nil]

/-- The visible records are a stretch of those that were sent. -/
theorem records_infix (h : s.Accords inHand l) : s.records.toList <:+: l.sent := by
  obtain ⟨before, hbefore⟩ := l.sinceClear_suffix
  refine ⟨(Ledger.batches before).flatten, inHand ++ s.queue.toList, ?_⟩
  rw [h.visible, ← List.flatten_append, ← Ledger.batches_append, hbefore, h.sent]
  exact (List.append_assoc ..).symm

/-- Where nothing was cleared the visible records are the first of those that were sent. -/
theorem sent_eq_of_clears (h : s.Accords inHand l) (hclears : l.clears = 0) :
    l.sent = s.records.toList ++ (inHand ++ s.queue.toList) := by
  have hall : l.sinceClear = l := Ledger.sinceClear_append (l := []) hclears
  rw [h.sent, h.visible, hall, List.append_assoc]

theorem pairwise_records {R : Record → Record → Prop} (h : s.Accords inHand l)
    (hsent : l.sent.Pairwise R) : s.records.toList.Pairwise R :=
  hsent.sublist h.records_infix.sublist

end Store.Accords

end TraceViews
