import TraceViews.Proofs.Store.Threads

/-!
# The records of a workspace

The ledger of a run of a workspace, kept from the answers that its operations give. Main statement:
in every run no record is lost, doubled or moved (`Workspace.accords_of_run`), whether drains are
done at one go between the other operations, or step by step among the senders.
-/

namespace TraceViews

/-- Whether a record is not younger than another one. -/
def Record.NotAfter (r r' : Record) : Prop := r.timestamp ≤ r'.timestamp

instance : DecidableRel Record.NotAfter := fun r r' =>
  inferInstanceAs (Decidable (r.timestamp ≤ r'.timestamp))

namespace Workspace

variable {w : Workspace} {l : Ledger}

/-- What a ledger notes of an operation: a record that is queued, not one that is refused; the
records at the positions that a drain gives; and a clear. -/
def note? (w : Workspace) : Operation → Option Entry
  | .enqueue r => some (.sent r)
  | .send r =>
    match w.send r with
    | .ok _ => some (.sent r)
    | .error _ => none
  | .drain => w.drain.1.map fun span => .batch (w.drain.2.store.recordsIn span)
  | .clear => some .clear
  | _ => none

/-- The ledger of a run. -/
def ledger (w : Workspace) (ops : List Operation) : Ledger := Ledger.along apply note? w ops

/-- **An operation keeps the store in accord with its ledger.** -/
theorem accords_apply (h : w.store.Accords [] l) (op : Operation) :
    (w.apply op).store.Accords [] (l ++ (w.note? op).toList) := by
  cases op with
  | enqueue r => exact h.send r
  | send r =>
    rw [apply, note?, send]
    by_cases hclosed : w.closed = true
    · rw [if_pos hclosed]
      simpa using h
    · rw [if_neg hclosed]
      exact h.send r
  | drain => exact h.drain
  | clear => exact h.clear
  | openView => simpa [apply, openView, note?] using h
  | view n op =>
    rw [apply, (applyToView_frame w n op).1]
    simpa [note?] using h
  | _ =>
    rw [(apply_of_beside ?_ w).1]
    · simpa [note?] using h
    · trivial

theorem accords_run (h : w.store.Accords [] l) (ops : List Operation) :
    (w.run ops).store.Accords [] (l ++ w.ledger ops) :=
  Store.Accords.along store (fun _ => []) (fun _ op _ h => accords_apply h op) h ops

/-- **No record is lost, doubled or moved**, in any run of a workspace, nor among threads that send
and clear while a drain is under way. A drain does nothing where nothing is queued, and otherwise
gives the positions that the queued records are found at; a clear leaves the queue; between two
points with one generation the visible records are the same; and they are in the order of time if
all records were sent so. -/
theorem accords_of_run :
    (∀ ops : List Operation,
      let w := initial.run ops
      let l := initial.ledger ops
      w.store.Accords [] l ∧
        (w.store.queue.toList = [] → w.drain = (none, w)) ∧
        (w.store.queue.toList ≠ [] → ∃ span s', w.drain = (some span, { w with store := s' }) ∧
          w.store.Appends s' span w.store.queue.toList ∧ s'.queue = #[]) ∧
        (w.apply .clear).store.queue = w.store.queue ∧
        (∀ more : List Operation, (w.run more).store.generation = w.store.generation →
          (w.run more).store.records = w.store.records) ∧
        (l.sent.Pairwise Record.NotAfter → w.store.records.toList.Pairwise Record.NotAfter)) ∧
    (∀ steps : List ThreadStep,
      let t := (SharedStore.idle .empty).run steps
      let l := (SharedStore.idle .empty).ledger steps
      t.store.Accords t.batch.toList l ∧
        (t.sawEmpty = true →
          (t.batch.toList = [] → t.publish = (none, .idle t.store)) ∧
            (t.batch.toList ≠ [] → ∃ span s', t.publish = (some span, .idle s') ∧
              t.store.Appends s' span t.batch.toList ∧ s'.queue = t.store.queue)) ∧
        (∀ more : List ThreadStep, (t.run more).store.generation = t.store.generation →
          (t.run more).store.records = t.store.records) ∧
        (l.sent.Pairwise Record.NotAfter → t.store.records.toList.Pairwise Record.NotAfter)) ∧
    ∀ s : Store,
      (SharedStore.idle s).run (List.replicate s.queue.size .look ++ [.look, .publish])
        = .idle s.drain.2 := by
  refine ⟨?_, ?_, SharedStore.run_drain⟩
  · intro ops w l
    have h : w.store.Accords [] l := accords_run (w := initial) (l := []) .empty ops
    obtain ⟨hnothing, hsome⟩ := w.store.drain_spec
    refine ⟨h, ?_, ?_, rfl, fun more => h.records_eq (accords_run h more), h.pairwise_records⟩
    · intro hqueue
      rw [drain, hnothing hqueue]
    · intro hqueue
      obtain ⟨span, s', hdrain, happends⟩ := hsome hqueue
      refine ⟨span, s', ?_, happends⟩
      rw [drain, hdrain]
  · intro steps t l
    have h : t.store.Accords t.batch.toList l :=
      SharedStore.accords_run (t := .idle .empty) (l := []) .empty steps
    exact ⟨h, SharedStore.publish_spec, fun more => h.records_eq (SharedStore.accords_run h more),
      h.pairwise_records⟩

/-- A record is queued when the visible ones are cleared, and one is sent into a drain. -/
theorem accords_of_clear_between :
    let a : Record := ⟨"2", "net", 1, "x"⟩
    let b : Record := ⟨"3", "disk", 2, "y"⟩
    let c : Record := ⟨"4", "net", 2, "z"⟩
    let w := initial.run [.enqueue a, .drain, .enqueue b, .clear, .send c]
    let w' := initial.run [.enqueue a, .drain, .enqueue b, .clear, .send c, .drain]
    let t := (SharedStore.idle .empty).run
      [.send a, .look, .send b, .look, .look, .clear, .send c]
    (∃ span s', w.drain = (some span, { w with store := s' }) ∧
        w.store.Appends s' span [b, c] ∧ s'.queue = #[]) ∧
      w'.drain = (none, w') ∧
      (w'.run [.send a, .subscribe]).store.records = w'.store.records ∧
      w'.store.records.toList.Pairwise Record.NotAfter ∧
      (∃ span s', t.publish = (some span, .idle s') ∧ t.store.Appends s' span [a, b] ∧
        s'.queue = t.store.queue) ∧
      (t.run [.send a]).store.records = t.store.records ∧
      t.store.records.toList.Pairwise Record.NotAfter := by
  intro a b c w w' t
  obtain ⟨hops, hsteps, -⟩ := accords_of_run
  obtain ⟨-, -, hdrain, -⟩ := hops [.enqueue a, .drain, .enqueue b, .clear, .send c]
  obtain ⟨-, hnothing, -, -, hsame, hsorted⟩ :=
    hops [.enqueue a, .drain, .enqueue b, .clear, .send c, .drain]
  obtain ⟨-, hpublish, hsame', hsorted'⟩ :=
    hsteps [.send a, .look, .send b, .look, .look, .clear, .send c]
  exact ⟨hdrain nofun, hnothing rfl, hsame [.send a, .subscribe] rfl, hsorted (by decide),
    (hpublish rfl).2 nofun, hsame' [.send a] rfl, hsorted' (by decide)⟩

end Workspace

end TraceViews
