import TraceViews.Workspace

/-!
# Runs of a workspace

The operations of a workspace as data, and what a single one does to the store and to the views.
An operation on a number that stands for nothing, and one that is refused, changes nothing.
`Workspace.store_apply` and `Workspace.view?_apply` say all that an operation can do; what holds
in every run follows from them.
-/

namespace TraceViews

/-- What can be done with one view. -/
inductive ViewOperation where
  | read
  | setFilter (filter : Option RecordFilter)
  | setFilterText (text : String)
  | setTemplate (text : String)
  | refresh
  | select (row : Nat)
  | follow
  | takeNotices
  | attach (participant : Nat)
  | drop

/-- What can be done with a workspace. -/
inductive Operation where
  | enqueue (r : Record)
  | send (r : Record)
  | drain
  | clear
  | release
  | subscribe
  | poll (observer : Nat)
  | openHub
  | join (hub : Nat)
  | publish (participant : Nat) (timestamp : Timestamp)
  | latest (participant : Nat)
  | leave (participant : Nat)
  | openView
  | view (n : Nat) (op : ViewOperation)

namespace Workspace

/-- Works on a view. -/
def applyToView (w : Workspace) (n : Nat) : ViewOperation → Workspace
  | .read => ((w.readView n fun _ _ => ()).map Prod.snd).getD w
  | .setFilter filter => ((w.changeView n fun v s => v.setFilter s filter).map Prod.snd).getD w
  | .setFilterText text =>
    ((w.changeView n fun v s => v.setFilterText s text).map Prod.snd).getD w
  | .setTemplate text => ((w.changeView n fun v _ => v.setTemplate text).map Prod.snd).getD w
  | .refresh =>
    ((w.changeView n fun v s => (.ok (v.refresh s) : Except Unit View)).map Prod.snd).getD w
  | .select row => ((w.selectRow n row).map Prod.snd).getD w
  | .follow => ((w.followView n).map Prod.snd).getD w
  | .takeNotices => ((w.takeNotices n).map Prod.snd).getD w
  | .attach participant => (w.attach n participant).getD w
  | .drop => w.dropView n

/-- Does an operation, for what it makes of the workspace. -/
def apply (w : Workspace) : Operation → Workspace
  | .enqueue r => w.modifyStore (·.enqueue r)
  | .send r =>
    match w.send r with
    | .ok w => w
    | .error _ => w
  | .drain => w.drain.2
  | .clear => w.modifyStore Store.clear
  | .release => w.release
  | .subscribe => w.subscribe.2
  | .poll observer => ((w.poll observer).map Prod.snd).getD w
  | .openHub => w.openHub.2
  | .join hub => ((w.join hub).map fun joined => joined.2.2).getD w
  | .publish participant timestamp => (w.publish participant timestamp).getD w
  | .latest participant => ((w.latest participant).map Prod.snd).getD w
  | .leave participant => w.leave participant
  | .openView => w.openView.2
  | .view n op => w.applyToView n op

/-- Does operations one after the other. -/
def run (w : Workspace) (ops : List Operation) : Workspace := ops.foldl apply w

@[simp] theorem run_nil (w : Workspace) : w.run [] = w := rfl

@[simp] theorem run_cons (w : Workspace) (op : Operation) (ops : List Operation) :
    w.run (op :: ops) = (w.apply op).run ops := rfl

theorem run_append (w : Workspace) (ops more : List Operation) :
    w.run (ops ++ more) = (w.run ops).run more := List.foldl_append

theorem run_concat (w : Workspace) (ops : List Operation) (op : Operation) :
    w.run (ops ++ [op]) = (w.run ops).apply op := run_append w ops [op]

end Workspace

/-! ## Sync points -/

/-- Whether the operation makes a view take stock of its rows: a refresh, and the installation or
removal of a filter if it goes through. -/
def ViewOperation.syncs (s : Store) (v : View) : ViewOperation → Bool
  | .refresh => true
  | .setFilter filter => (v.setFilter s filter).isOk
  | .setFilterText text => (v.setFilterText s text).isOk
  | _ => false

/-- Whether view `n` takes stock of its rows in the operation, for the first time when it is
opened. -/
def Operation.syncs (w : Workspace) (n : Nat) : Operation → Bool
  | .openView => n == w.views.size
  | .view m op => n == m && (w.view? m).any (op.syncs w.store)
  | _ => false

/-- The operations on observers, hubs and participants. -/
def Operation.Beside : Operation → Prop
  | .release | .subscribe | .poll _ => True
  | .openHub | .join _ | .publish .. | .latest _ | .leave _ => True
  | _ => False

/-! ## What becomes of a view -/

namespace View

/-- Bringing the rows up to date shows only to those who look at them. -/
theorem apply_current {α : Type} {v : View} {f : View → α} (s : Store)
    (h : ∀ rows generation, f { v with rows, rowsGeneration := generation } = f v) :
    f (v.current s) = f v := by
  rw [current]
  split
  · rfl
  · exact h _ _

@[simp] theorem filter_current (v : View) (s : Store) : (v.current s).filter = v.filter :=
  apply_current s fun _ _ => rfl

@[simp] theorem template_current (v : View) (s : Store) : (v.current s).template = v.template :=
  apply_current s fun _ _ => rfl

@[simp] theorem reported_current (v : View) (s : Store) : (v.current s).reported = v.reported :=
  apply_current s fun _ _ => rfl

@[simp] theorem cursor_current (v : View) (s : Store) : (v.current s).cursor = v.cursor :=
  apply_current s fun _ _ => rfl

@[simp] theorem notices_current (v : View) (s : Store) : (v.current s).notices = v.notices :=
  apply_current s fun _ _ => rfl

@[simp] theorem rowsGeneration_current (v : View) (s : Store) :
    (v.current s).rowsGeneration = some s.generation := by
  rw [current]
  split
  · next h => exact h
  · rfl

/-- Rows are brought up to date alike, whoever listens for the view. -/
theorem current_participant (v : View) (s : Store) (p : Option Participant) :
    View.current { v with participant := p } s = { v.current s with participant := p } := by
  rw [current, current]
  split
  · rfl
  · rfl

/-- Between two sync points: a view keeps its filter, the rows it has reported and its place in the
changes; its rows stay as they are or are brought up to date. -/
structure Keeps (s : Store) (v v' : View) : Prop where
  filter : v'.filter = v.filter
  reported : v'.reported = v.reported
  cursor : v'.cursor = v.cursor
  rows : (v'.rows = v.rows ∧ v'.rowsGeneration = v.rowsGeneration) ∨
    (v'.rows = (v.current s).rows ∧ v'.rowsGeneration = (v.current s).rowsGeneration)

/-- What a sync point makes of a view. -/
inductive Syncs (s : Store) (v : View) : View → Prop where
  | refresh : Syncs s v (v.refresh s)
  | install (filter : Option RecordFilter) : Syncs s v (v.install s filter)

variable {s : Store} {v v' : View}

/-- A view whose rows, filter and place nothing has touched. -/
theorem Keeps.of_eq (hf : v'.filter = v.filter) (hr : v'.reported = v.reported)
    (hc : v'.cursor = v.cursor) (hrows : v'.rows = v.rows)
    (hg : v'.rowsGeneration = v.rowsGeneration) : v.Keeps s v' :=
  ⟨hf, hr, hc, .inl ⟨hrows, hg⟩⟩

theorem Keeps.refl (v : View) : v.Keeps s v := .of_eq rfl rfl rfl rfl rfl

theorem Keeps.current (v : View) : v.Keeps s (v.current s) :=
  ⟨filter_current v s, reported_current v s, cursor_current v s, .inr ⟨rfl, rfl⟩⟩

theorem Keeps.follow (v : View) (hub : Hub) : v.Keeps s (v.follow s hub).2 := by
  have hcurrent (p : Option Participant) (notices : Array Notice) :
      v.Keeps s { v.current s with participant := p, notices } :=
    ⟨filter_current v s, reported_current v s, cursor_current v s, .inr ⟨rfl, rfl⟩⟩
  rw [View.follow]
  cases v.participant with
  | none => exact .refl v
  | some p =>
    simp only [current_participant]
    split
    · exact .of_eq rfl rfl rfl rfl rfl
    · split
      · exact hcurrent ..
      · exact hcurrent ..

theorem Keeps.setTemplate {text : String} (h : v.setTemplate text = .ok v') : v.Keeps s v' := by
  rw [View.setTemplate] at h
  split at h
  · cases h
  · cases h
    exact .of_eq rfl rfl rfl rfl rfl

/-- A filter that is not refused is installed. -/
theorem eq_install_of_setFilter {filter : Option RecordFilter}
    (h : v.setFilter s filter = .ok v') : v' = v.install s filter := by
  rw [View.setFilter.eq_def] at h
  split at h
  · cases h
    rfl
  · split at h
    · cases h
    · split at h
      · cases h
      · cases h
        rfl

/-- A text that is not refused is a filter that is installed. -/
theorem exists_install_of_setFilterText {text : String} (h : v.setFilterText s text = .ok v') :
    ∃ filter, v' = v.install s filter := by
  rw [View.setFilterText] at h
  split at h
  · exact ⟨none, eq_install_of_setFilter h⟩
  · split at h
    · cases h
    · exact ⟨_, eq_install_of_setFilter h⟩

theorem Syncs.setFilter {filter : Option RecordFilter} (h : v.setFilter s filter = .ok v') :
    v.Syncs s v' := by
  rw [eq_install_of_setFilter h]
  exact .install filter

theorem Syncs.setFilterText {text : String} (h : v.setFilterText s text = .ok v') :
    v.Syncs s v' := by
  obtain ⟨filter, rfl⟩ := exists_install_of_setFilterText h
  exact .install filter

end View

/-- What an operation makes of its view. -/
def ViewOperation.Effect (op : ViewOperation) (s : Store) (v v' : View) : Prop :=
  (op.syncs s v = true ∧ v.Syncs s v') ∨ (op.syncs s v = false ∧ v.Keeps s v')

namespace Workspace

variable {w w' : Workspace} {n m : Nat} {v v' : View} {op : ViewOperation}

/-! ## Operations on a view -/

/-- What an operation on a view leaves behind: the store as it was, and in the place of the view
what it makes of it. -/
def Replaces (op : ViewOperation) (w : Workspace) (n : Nat) (w' : Workspace) : Prop :=
  w'.store = w.store ∧ ∃ v v', w.view? n = some v ∧ op.Effect w.store v v' ∧
    w'.views = w.views.setIfInBounds n (some v')

theorem replaces_setView (hv : w.view? n = some v) (h : op.Effect w.store v v') :
    Replaces op w n (w.setView n v') :=
  ⟨rfl, v, v', hv, h, rfl⟩

theorem setView_self (hv : w.view? n = some v) : w.setView n v = w := by
  have hn : w.views[n]? = some (some v) := Option.join_eq_some_iff.1 hv
  obtain ⟨hlt, hget⟩ := Array.getElem?_eq_some_iff.1 hn
  have hset : w.views.setIfInBounds n (some v) = w.views := by
    rw [Array.setIfInBounds_def, dif_pos hlt, ← hget, Array.set_getElem_self]
  rw [setView, hset]

theorem replaces_self (hv : w.view? n = some v) (h : op.Effect w.store v v) :
    Replaces op w n w := by
  have := replaces_setView hv h
  rw [setView_self hv] at this
  exact this

theorem replaces_changeView {ε : Type} {f : View → Store → Except ε View}
    (hv : w.view? n = some v) (hok : ∀ v', f v w.store = .ok v' → op.Effect w.store v v')
    (herror : ∀ e, f v w.store = .error e → op.Effect w.store v v) :
    Replaces op w n (((w.changeView n f).map Prod.snd).getD w) := by
  rw [changeView, hv]
  cases hf : f v w.store with
  | ok v' =>
    simp only [Option.bind_eq_bind, Option.bind_some, hf]
    exact replaces_setView hv (hok v' hf)
  | error e =>
    simp only [Option.bind_eq_bind, Option.bind_some, hf]
    exact replaces_self hv (herror e hf)

theorem replaces_selectRow (row : Nat) (hv : w.view? n = some v)
    (h : op.Effect w.store v (v.current w.store)) :
    Replaces op w n (((w.selectRow n row).map Prod.snd).getD w) := by
  simp only [selectRow, hv, Option.bind_eq_bind, Option.bind_some]
  split
  · exact replaces_setView hv h
  · exact ⟨rfl, v, v.current w.store, hv, h, rfl⟩

theorem replaces_attach (participant : Nat) (hv : w.view? n = some v)
    (hself : op.Effect w.store v v) (h : ∀ p, op.Effect w.store v (v.attach p)) :
    Replaces op w n ((w.attach n participant).getD w) := by
  simp only [attach, hv, Option.bind_eq_bind, Option.bind_some]
  cases w.participant? participant with
  | none => exact replaces_self hv hself
  | some p => exact ⟨rfl, v, v.attach p, hv, h p, rfl⟩

/-- **What an operation on a view can do**: it puts what it makes of the view in its place, or it
drops the view. -/
theorem replaces_applyToView (hv : w.view? n = some v) :
    op = .drop ∨ Replaces op w n (w.applyToView n op) := by
  -- only a refresh and a new filter are sync points; the others keep the view's account
  cases op with
  | read =>
    rw [applyToView, readView, hv]
    exact .inr (replaces_setView hv (.inr ⟨rfl, .current v⟩))
  | setFilter filter =>
    refine .inr (replaces_changeView hv ?_ ?_)
    · intro v' h
      refine .inl ⟨?_, .setFilter h⟩
      rw [ViewOperation.syncs, h]
      rfl
    · intro e h
      refine .inr ⟨?_, .refl v⟩
      rw [ViewOperation.syncs, h]
      rfl
  | setFilterText text =>
    refine .inr (replaces_changeView hv ?_ ?_)
    · intro v' h
      refine .inl ⟨?_, .setFilterText h⟩
      rw [ViewOperation.syncs, h]
      rfl
    · intro e h
      refine .inr ⟨?_, .refl v⟩
      rw [ViewOperation.syncs, h]
      rfl
  | setTemplate text =>
    refine .inr (replaces_changeView hv ?_ ?_)
    · intro v' h
      exact .inr ⟨rfl, .setTemplate h⟩
    · intro e h
      exact .inr ⟨rfl, .refl v⟩
  | refresh =>
    refine .inr (replaces_changeView hv ?_ ?_)
    · intro v' h
      cases h
      exact .inl ⟨rfl, .refresh⟩
    · intro e h
      cases h
  | select row => exact .inr (replaces_selectRow row hv (.inr ⟨rfl, .current v⟩))
  | follow =>
    rw [applyToView, followView, hv]
    exact .inr (replaces_setView hv (.inr ⟨rfl, .follow v _⟩))
  | takeNotices =>
    rw [applyToView, takeNotices, hv]
    exact .inr (replaces_setView hv (.inr ⟨rfl, .of_eq rfl rfl rfl rfl rfl⟩))
  | attach participant =>
    refine .inr (replaces_attach participant hv (.inr ⟨rfl, .refl v⟩) ?_)
    intro p
    exact .inr ⟨rfl, .of_eq rfl rfl rfl rfl rfl⟩
  | drop => exact .inl rfl

/-- Without a view of the number nothing happens. -/
theorem applyToView_of_none (hv : w.view? n = none) (h : op ≠ .drop) : w.applyToView n op = w := by
  cases op with
  | drop => exact absurd rfl h
  | _ => simp [applyToView, readView, changeView, selectRow, followView, takeNotices, attach, hv]

theorem view?_eq_of_views {x : Option View} (h : w'.views = w.views.setIfInBounds n x) (m : Nat) :
    w'.view? m = if n = m then (if n < w.views.size then x else none) else w.view? m := by
  rw [view?, h, Array.getElem?_setIfInBounds]
  split
  · split <;> rfl
  · rfl

theorem view?_dropView (w : Workspace) (n : Nat) :
    (w.dropView n).view? m = if n = m then none else w.view? m := by
  rw [view?_eq_of_views (w := w) (x := none) rfl m]
  split
  · split <;> rfl
  · rfl

/-- An operation on a view leaves the store and the other views as they are. -/
theorem applyToView_frame (w : Workspace) (n : Nat) (op : ViewOperation) :
    (w.applyToView n op).store = w.store ∧
      ∀ m, m ≠ n → (w.applyToView n op).view? m = w.view? m := by
  by_cases hdrop : op = .drop
  · cases hdrop
    refine ⟨rfl, ?_⟩
    intro m hm
    exact (view?_dropView w n).trans (if_neg hm.symm)
  · cases hv : w.view? n with
    | none =>
      rw [applyToView_of_none hv hdrop]
      exact ⟨rfl, fun m hm => rfl⟩
    | some v =>
      obtain ⟨hstore, -, v', -, -, hviews⟩ := (replaces_applyToView hv).resolve_left hdrop
      refine ⟨hstore, ?_⟩
      intro m hm
      exact (view?_eq_of_views hviews m).trans (if_neg hm.symm)

/-- A view that is there behind an operation on it is what the operation made of the one before. -/
theorem effect_of_view?_applyToView (h : (w.applyToView n op).view? n = some v') :
    ∃ v, w.view? n = some v ∧ op.Effect w.store v v' := by
  by_cases hdrop : op = .drop
  · cases hdrop
    rw [applyToView, view?_dropView, if_pos rfl] at h
    cases h
  · cases hv : w.view? n with
    | none =>
      rw [applyToView_of_none hv hdrop, hv] at h
      cases h
    | some v =>
      obtain ⟨-, v, v₁, hv₁, heffect, hviews⟩ := (replaces_applyToView hv).resolve_left hdrop
      rw [view?_eq_of_views hviews, if_pos rfl] at h
      split at h
      · cases h
        exact ⟨v, hv.symm.trans hv₁, heffect⟩
      · cases h

end Workspace

/-! ## Operations on the store -/

/-- A drain that has records to move. -/
theorem Store.drain_of_queue {s : Store} (h : s.queue.isEmpty = false) :
    s.drain.2 = { s.changed (s.records ++ s.queue)
      (.inserted ⟨s.records.size, (s.records ++ s.queue).size⟩) with queue := #[] } := by
  rw [drain, if_neg (Bool.eq_false_iff.1 h)]

/-- What an operation makes of the store, with the change that it announces. -/
inductive Store.Step (s : Store) : Option Change → Store → Prop where
  | stay : Step s none s
  | enqueue (r : Record) : Step s none (s.enqueue r)
  | drain (h : s.queue.isEmpty = false) :
    Step s (some (.inserted ⟨s.records.size, (s.records ++ s.queue).size⟩)) s.drain.2
  | clear : Step s (some (.cleared s.records.size)) s.clear

namespace Workspace

variable {w : Workspace} {n : Nat} {v : View}

/-- The change of the store that an operation announces: a drain that has records to move, or a
clear. -/
def change? (w : Workspace) : Operation → Option Change
  | .drain => w.drain.1.map .inserted
  | .clear => some (.cleared w.store.records.size)
  | _ => none

/-- The changes of the store that operations announce one after the other. -/
def changes : Workspace → List Operation → List Change
  | _, [] => []
  | w, op :: ops => (w.change? op).toList ++ (w.apply op).changes ops

/-- The operations on observers, hubs and participants spare the store and the views. -/
theorem apply_of_beside {op : Operation} (h : op.Beside) (w : Workspace) :
    (w.apply op).store = w.store ∧ (w.apply op).views = w.views := by
  cases op with
  | poll observer =>
    rw [apply, poll]
    cases w.observers[observer]? <;> exact ⟨rfl, rfl⟩
  | join hub =>
    rw [apply, join]
    cases w.hubs[hub]? <;> exact ⟨rfl, rfl⟩
  | publish participant timestamp =>
    rw [apply, publish]
    cases w.participant? participant with
    | none => exact ⟨rfl, rfl⟩
    | some p =>
      simp only [Option.bind_eq_bind, Option.bind_some]
      cases w.hubs[p.hub]? <;> exact ⟨rfl, rfl⟩
  | latest participant =>
    rw [apply, latest]
    cases w.participant? participant with
    | none => exact ⟨rfl, rfl⟩
    | some p =>
      simp only [Option.bind_eq_bind, Option.bind_some]
      cases w.hubs[p.hub]? <;> exact ⟨rfl, rfl⟩
  | release => exact ⟨rfl, rfl⟩
  | subscribe => exact ⟨rfl, rfl⟩
  | openHub => exact ⟨rfl, rfl⟩
  | leave participant => exact ⟨rfl, rfl⟩
  | _ => cases h

/-- A record is refused, or it is queued. -/
theorem apply_send_cases (w : Workspace) (r : Record) :
    w.apply (.send r) = w ∨ w.apply (.send r) = w.apply (.enqueue r) := by
  simp only [apply, send]
  by_cases h : w.closed = true
  · rw [if_pos h]
    exact .inl rfl
  · rw [if_neg h]
    exact .inr rfl

theorem step_drain (w : Workspace) : w.store.Step (w.change? .drain) w.drain.2.store := by
  by_cases h : w.store.queue.isEmpty = true
  · rw [change?, drain, Store.drain, if_pos h]
    exact .stay
  · have hmoved := Store.Step.drain (Bool.eq_false_iff.2 h)
    rw [change?, drain]
    rw [Store.drain, if_neg h] at hmoved ⊢
    exact hmoved

/-- **What an operation makes of the store.** -/
theorem step_apply (w : Workspace) (op : Operation) :
    w.store.Step (w.change? op) (w.apply op).store := by
  cases op with
  | enqueue r => exact .enqueue r
  | send r =>
    rcases apply_send_cases w r with h | h
    · rw [h]
      exact .stay
    · rw [h]
      exact .enqueue r
  | drain => exact step_drain w
  | clear => exact .clear
  | openView => exact .stay
  | view n op =>
    rw [apply, (applyToView_frame w n op).1]
    exact .stay
  | _ =>
    rw [(apply_of_beside ?_ w).1]
    · exact .stay
    · trivial

/-- Opening a view gives it the next number. -/
theorem view?_openView (w : Workspace) (n : Nat) :
    w.openView.2.view? n = if n = w.views.size then some (.ofStore w.store) else w.view? n := by
  rw [view?, openView, Array.getElem?_push]
  split
  · rfl
  · rfl

/-- **What an operation makes of a view.** A view that is there behind an operation has just taken
stock of its rows, when it was opened or at another sync point; or it is the view from before,
with the same filter and the same account of what has been reported. -/
theorem view?_apply {op : Operation} (h : (w.apply op).view? n = some v) :
    (op.syncs w n = true ∧ (w.apply op).store = w.store ∧
        (v = .ofStore w.store ∨ ∃ u, w.view? n = some u ∧ u.Syncs w.store v)) ∨
      (op.syncs w n = false ∧ ∃ u, w.view? n = some u ∧ u.Keeps w.store v) := by
  cases op with
  | openView =>
    rw [apply, view?_openView] at h
    split at h
    · next hn =>
      cases h
      exact .inl ⟨beq_iff_eq.2 hn, rfl, .inl rfl⟩
    · next hn => exact .inr ⟨beq_eq_false_iff_ne.2 hn, v, h, .refl v⟩
  | view m op =>
    obtain ⟨hstore, hother⟩ := applyToView_frame w m op
    -- an operation on another view is none on this one
    by_cases hm : n = m
    · subst hm
      obtain ⟨u, hu, heffect⟩ := effect_of_view?_applyToView h
      have hsyncs : (Operation.view n op).syncs w n = op.syncs w.store u := by
        rw [Operation.syncs, hu, beq_self_eq_true, Bool.true_and]
        rfl
      rw [hsyncs]
      rcases heffect with ⟨hs, heffect⟩ | ⟨hs, heffect⟩
      · exact .inl ⟨hs, hstore, .inr ⟨u, hu, heffect⟩⟩
      · exact .inr ⟨hs, u, hu, heffect⟩
    · rw [apply, hother n hm] at h
      refine .inr ⟨?_, v, h, .refl v⟩
      rw [Operation.syncs, beq_eq_false_iff_ne.2 hm, Bool.false_and]
  | enqueue r => exact .inr ⟨rfl, v, h, .refl v⟩
  | send r =>
    rcases apply_send_cases w r with hs | hs
    · rw [hs] at h
      exact .inr ⟨rfl, v, h, .refl v⟩
    · rw [hs] at h
      exact .inr ⟨rfl, v, h, .refl v⟩
  | drain => exact .inr ⟨rfl, v, h, .refl v⟩
  | clear => exact .inr ⟨rfl, v, h, .refl v⟩
  | _ =>
    rw [view?, (apply_of_beside ?_ w).2] at h
    · exact .inr ⟨rfl, v, h, .refl v⟩
    · trivial

end Workspace

end TraceViews
