import TraceViews.Proofs.Store.Ledger

/-!
# A store in several threads

A drain holds the queue until it is done, but not the senders: it takes the queued records one by
one, and meanwhile more may be sent, or the visible records cleared. Left alone, these steps are a
drain at one go (`SharedStore.run_drain`); in any other order they keep the store in accord with its
ledger as well (`SharedStore.accords_run`).
-/

namespace TraceViews

/-- A store with the drain that is under way: the records that it has taken so far, and whether it
has found the queue empty. -/
structure SharedStore where
  store : Store
  batch : Array Record
  sawEmpty : Bool

/-- A step of one of the threads: a sender's, one of the drain's two, or a clear. -/
inductive ThreadStep where
  | send (r : Record)
  | look
  | publish
  | clear

namespace SharedStore

/-- A store that no drain works on. -/
def idle (s : Store) : SharedStore := ⟨s, #[], false⟩

/-- The drain takes the next record of the queue, unless it has found the queue empty. -/
def look (t : SharedStore) : SharedStore :=
  if t.sawEmpty then t
  else
    match t.store.queue.toList with
    | [] => { t with sawEmpty := true }
    | r :: queue =>
      { t with store := { t.store with queue := queue.toArray }, batch := t.batch.push r }

/-- The drain makes visible what it has taken, if it is anything, and is done. -/
def publish (t : SharedStore) : Option Span × SharedStore :=
  if t.sawEmpty then
    if t.batch.isEmpty then (none, idle t.store)
    else
      let records := t.store.records ++ t.batch
      let span := ⟨t.store.records.size, records.size⟩
      (some span, idle (t.store.changed records (.inserted span)))
  else (none, t)

/-- Takes a step. -/
def apply (t : SharedStore) : ThreadStep → SharedStore
  | .send r => { t with store := t.store.enqueue r }
  | .look => t.look
  | .publish => t.publish.2
  | .clear => { t with store := t.store.clear }

/-- Takes steps one after the other. -/
def run (t : SharedStore) (steps : List ThreadStep) : SharedStore := steps.foldl apply t

/-- What a ledger notes of a step: a drain leaves the batch at the positions that it gives. -/
def note? (t : SharedStore) : ThreadStep → Option Entry
  | .send r => some (.sent r)
  | .look => none
  | .publish => t.publish.1.map fun span => .batch (t.publish.2.store.recordsIn span)
  | .clear => some .clear

/-- The ledger of a run. -/
def ledger (t : SharedStore) (steps : List ThreadStep) : Ledger :=
  Ledger.along apply note? t steps

/-! ## A drain left alone -/

/-- Looking as often as records are queued takes them all. -/
theorem run_looks (s : Store) (batch : Array Record) :
    run ⟨s, batch, false⟩ (List.replicate s.queue.size .look)
      = ⟨{ s with queue := #[] }, batch ++ s.queue, false⟩ := by
  obtain ⟨records, ⟨queue⟩, generation, changes⟩ := s
  induction queue generalizing batch with
  | nil => simp [run]
  | cons r queue ih =>
    have hrest := ih (batch.push r)
    simp only [List.size_toArray, List.length_cons, List.replicate_succ, run, List.foldl_cons]
      at hrest ⊢
    rw [show apply ⟨⟨records, ⟨r :: queue⟩, generation, changes⟩, batch, false⟩ .look
      = ⟨⟨records, ⟨queue⟩, generation, changes⟩, batch.push r, false⟩ from rfl, hrest]
    simp

/-- **The steps of a drain that nobody interrupts** are a drain at one go. -/
theorem run_drain (s : Store) :
    (idle s).run (List.replicate s.queue.size .look ++ [.look, .publish]) = idle s.drain.2 := by
  rw [run, List.foldl_append]
  show run (run (idle s) _) _ = _
  rw [idle, run_looks]
  cases h : s.queue.isEmpty with
  | true =>
    have hqueue : s.queue = #[] := Array.isEmpty_iff.1 h
    rw [Store.drain, if_pos h, hqueue]
    show idle { s with queue := #[] } = idle s
    rw [← hqueue]
  | false =>
    rw [Store.drain_of_queue h]
    simp [run, apply, look, publish, idle, h, Store.changed]

/-! ## All runs -/

/-- A drain that is done appends what it has taken, and does nothing where that is nothing. -/
theorem publish_spec {t : SharedStore} (h : t.sawEmpty = true) :
    (t.batch.toList = [] → t.publish = (none, idle t.store)) ∧
      (t.batch.toList ≠ [] → ∃ span s', t.publish = (some span, idle s') ∧
        t.store.Appends s' span t.batch.toList ∧ s'.queue = t.store.queue) := by
  rw [publish, if_pos h]
  cases hbatch : t.batch.isEmpty with
  | true =>
    have hempty : t.batch.toList = [] := by simpa using hbatch
    exact ⟨fun _ => rfl, fun hne => absurd hempty hne⟩
  | false =>
    have hne : t.batch.toList ≠ [] := by simpa using hbatch
    exact ⟨fun hempty => absurd hempty hne,
      fun _ => ⟨_, _, rfl, Store.appends_of_eq rfl rfl, rfl⟩⟩

theorem accords_apply {t : SharedStore} {l : Ledger} (h : t.store.Accords t.batch.toList l)
    (step : ThreadStep) :
    (t.apply step).store.Accords (t.apply step).batch.toList (l ++ (t.note? step).toList) := by
  cases step with
  | send r => exact h.send r
  | clear => exact h.clear
  | look =>
    rw [apply, look, note?, Option.toList_none, List.append_nil]
    split
    · exact h
    · split
      · exact h
      · next r queue hqueue =>
        rw [Array.toList_push]
        exact h.take hqueue
  | publish =>
    rw [apply, note?]
    cases hsaw : t.sawEmpty with
    | false =>
      rw [publish, if_neg (Bool.eq_false_iff.1 hsaw)]
      simpa using h
    | true =>
      obtain ⟨hnothing, hsome⟩ := publish_spec hsaw
      by_cases hbatch : t.batch.toList = []
      · rw [hbatch] at h
        rw [hnothing hbatch]
        simpa [idle] using h
      · obtain ⟨span, s', hpublish, happends, hqueue⟩ := hsome hbatch
        rw [hpublish, Option.map_some]
        simp only [idle, happends.there]
        exact h.batch hbatch happends.behind happends.generation hqueue

/-- **Whatever the threads do**, the store stays in accord with the ledger. -/
theorem accords_run {t : SharedStore} {l : Ledger} (h : t.store.Accords t.batch.toList l)
    (steps : List ThreadStep) :
    (t.run steps).store.Accords (t.run steps).batch.toList (l ++ t.ledger steps) :=
  Store.Accords.along store (fun t => t.batch.toList)
    (fun _ step _ h => accords_apply h step) h steps

end SharedStore

end TraceViews
