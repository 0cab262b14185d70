import TraceViews.Proofs.Sync.Parties
import TraceViews.Proofs.View.Steady

/-!
# What the participants of a workspace hear

Participants publish and ask on their own, or in a view that selects and follows. Each operation of
a workspace is a step of its hubs and participants (`Workspace.talk_apply`), so what a participant
is told in any run can be read off the selections that were made since it last listened
(`Workspace.hears_of_run`).
-/

namespace TraceViews

namespace Workspace

variable {w w' : Workspace} {n : Nat} {v v' : View}

/-! ## Seats -/

/-- The participant in a seat. -/
def seated? (w : Workspace) : Seat → Option Participant
  | .own n => w.participant? n
  | .view n => (w.view? n).bind View.participant

/-- The hubs with their participants. -/
def parties (w : Workspace) : Parties := ⟨w.hubs, w.seated?⟩

theorem lt_of_participant? {p : Participant} (hp : w.participant? n = some p) :
    n < w.participants.size :=
  (Array.getElem?_eq_some_iff.1 (Option.join_eq_some_iff.1 hp)).1

theorem lt_of_view? (hv : w.view? n = some v) : n < w.views.size :=
  (Array.getElem?_eq_some_iff.1 (Option.join_eq_some_iff.1 hv)).1

theorem seated?_setParticipant {o : Option Participant}
    (hn : n < w.participants.size ∨ o = none) :
    (w.setParticipant n o).seated? = Function.update w.seated? (.own n) o := by
  funext s
  cases s with
  | view m => exact (Function.update_of_ne (by simp) ..).symm
  | own m =>
    by_cases hm : m = n
    · subst hm
      rw [Function.update_self]
      show (w.participants.setIfInBounds m o)[m]?.join = o
      rw [Array.getElem?_setIfInBounds_self]
      split
      · rfl
      · next hlt => exact (hn.resolve_left hlt).symm
    · rw [Function.update_of_ne (by simpa using hm)]
      show (w.participants.setIfInBounds n o)[m]?.join = _
      rw [Array.getElem?_setIfInBounds_ne (Ne.symm hm)]
      rfl

theorem seated?_of_views {o : Option View} (hparticipants : w'.participants = w.participants)
    (hviews : w'.views = w.views.setIfInBounds n o) (hn : n < w.views.size ∨ o = none) :
    w'.seated? = Function.update w.seated? (.view n) (o.bind View.participant) := by
  funext s
  cases s with
  | own m =>
    have hother : Seat.own m ≠ .view n := nofun
    rw [Function.update_of_ne hother]
    show w'.participants[m]?.join = _
    rw [hparticipants]
    rfl
  | view m =>
    show (w'.view? m).bind View.participant = _
    rw [view?_eq_of_views hviews]
    by_cases hm : n = m
    · subst hm
      rw [Function.update_self, if_pos rfl]
      split
      · rfl
      · next hlt => rw [hn.resolve_left hlt]
    · rw [Function.update_of_ne (by simpa using Ne.symm hm), if_neg hm]
      rfl

theorem parties_setView (hv : w.view? n = some v) (v' : View) :
    (w.setView n v').parties
      = { w.parties with seated := Function.update w.seated? (.view n) v'.participant } := by
  have hparticipants : (w.setView n v').participants = w.participants := rfl
  have hviews : (w.setView n v').views = w.views.setIfInBounds n (some v') := rfl
  rw [parties, seated?_of_views hparticipants hviews (.inl (lt_of_view? hv))]
  rfl

/-- A view that changes in other ways stays in its hub as it is. -/
theorem parties_setView_of_eq (hv : w.view? n = some v)
    (hv' : v'.participant = v.participant) : (w.setView n v').parties = w.parties := by
  have hsame : v'.participant = w.seated? (.view n) := by
    rw [hv', seated?, hv]
    rfl
  rw [parties_setView hv, hsame, Function.update_eq_self]
  rfl

/-! ## Steps -/

/-- Who listens to its hub in an operation: it joins, or it asks for what is new. -/
def listener? (w : Workspace) : Operation → Option (Nat × Nat)
  | .join k => w.hubs[k]?.map fun h => (k, h.joined)
  | .latest n => (w.seated? (.own n)).map Participant.identity
  | .view n .follow => (w.seated? (.view n)).map Participant.identity
  | _ => none

/-- What is selected in an operation, and in which hub. -/
def publication? (w : Workspace) : Operation → Option (Nat × Selection)
  | .publish n timestamp => (w.seated? (.own n)).map fun p => (p.hub, ⟨p.id, timestamp⟩)
  | .view n (.select row) => do
    let v ← w.view? n
    let p ← v.participant
    let r ← ((v.current w.store).record w.store row).toOption
    return (p.hub, ⟨p.id, r.timestamp⟩)
  | _ => none

/-- Whoever listens does not select anything. -/
theorem publication?_of_listener? {op : Operation} {identity : Nat × Nat}
    (h : w.listener? op = some identity) : w.publication? op = none := by
  cases op with
  | join k => rfl
  | latest n => rfl
  | view n op =>
    cases op with
    | follow => rfl
    | _ => cases h
  | _ => cases h

theorem parties_changeView {ε : Type} {f : View → Store → Except ε View}
    (h : ∀ v v', f v w.store = .ok v' → v'.participant = v.participant) :
    (((w.changeView n f).map Prod.snd).getD w).parties = w.parties := by
  rw [changeView]
  cases hv : w.view? n with
  | none => rfl
  | some v =>
    cases hf : f v w.store with
    | ok v' =>
      simp only [Option.bind_eq_bind, Option.bind_some, hf]
      exact parties_setView_of_eq hv (h v v' hf)
    | error e =>
      simp only [Option.bind_eq_bind, Option.bind_some, hf]
      rfl

theorem participant_of_setFilter {s : Store} {filter : Option RecordFilter}
    (h : v.setFilter s filter = .ok v') : v'.participant = v.participant := by
  rw [View.eq_install_of_setFilter h]
  exact View.ignoresAccount_participant.reset _ s

theorem participant_of_setFilterText {s : Store} {text : String}
    (h : v.setFilterText s text = .ok v') : v'.participant = v.participant := by
  obtain ⟨filter, rfl⟩ := View.exists_install_of_setFilterText h
  exact View.ignoresAccount_participant.reset _ s

theorem participant_of_setTemplate {text : String} (h : v.setTemplate text = .ok v') :
    v'.participant = v.participant := by
  rw [View.setTemplate] at h
  split at h
  · cases h
  · cases h
    rfl

theorem hubOf_eq {p : Participant} {h : Hub} (hp : v.participant = some p)
    (hh : w.hubs[p.hub]? = some h) : w.hubOf v = h := by
  rw [hubOf, hp]
  show w.hubs[p.hub]?.getD _ = h
  rw [hh]
  rfl

/-- A view on its own has no hub that could be put back. -/
theorem parties_setHub_empty (w : Workspace) :
    (w.setHub (.empty w.hubs.size)).parties = w.parties := by
  have hhubs : w.hubs.setIfInBounds w.hubs.size (.empty w.hubs.size) = w.hubs :=
    Array.setIfInBounds_eq_of_size_le (Nat.le_refl _)
  show Parties.mk (w.hubs.setIfInBounds w.hubs.size _) w.seated? = _
  rw [hhubs]
  rfl

/-- A hub that goes on is put back in its place. -/
theorem talk_setHub (hw : w.parties.Tidy) {s : Seat} {p : Participant} {h : Hub}
    (hp : w.seated? s = some p) (hh : w.hubs[p.hub]? = some h) (timestamp : Timestamp) :
    w.parties.Talk none (some (p.hub, ⟨p.id, timestamp⟩))
      (w.setHub (h.publish p timestamp)).parties := by
  have hhubs : (w.setHub (h.publish p timestamp)).parties
      = { w.parties with hubs := w.hubs.setIfInBounds p.hub (h.publish p timestamp) } := by
    show Parties.mk (w.hubs.setIfInBounds h.number _) _ = _
    rw [hw.number p.hub h hh]
    rfl
  rw [hhubs]
  exact .publish hp hh timestamp

theorem seated?_view {p : Participant} (hv : w.view? n = some v) (hp : v.participant = some p) :
    w.seated? (.view n) = some p := by
  rw [seated?, hv]
  exact hp

theorem talk_select (hw : w.parties.Tidy) (row : Nat) :
    w.parties.Talk none (w.publication? (.view n (.select row)))
      (w.apply (.view n (.select row))).parties := by
  rw [publication?, apply, applyToView, selectRow]
  cases hv : w.view? n with
  | none => exact .stay
  | some v =>
    simp only [Option.bind_eq_bind, Option.bind_some]
    have hparticipant : (v.current w.store).participant = v.participant :=
      View.ignoresAccount_participant.current v w.store
    have hstore : (w.setView n (v.current w.store)).store = w.store := rfl
    have hhubs : (w.setView n (v.current w.store)).hubs = w.hubs := rfl
    have hread : (w.setView n (v.current w.store)).parties = w.parties :=
      parties_setView_of_eq hv hparticipant
    rw [View.select, hstore]
    generalize w.setView n (v.current w.store) = w₁ at hhubs hread
    cases hr : (v.current w.store).record w.store row with
    | error e =>
      have hnone : (v.participant.bind fun _ => none) = (none : Option (Nat × Selection)) := by
        cases v.participant <;> rfl
      show w.parties.Talk none (v.participant.bind fun _ => none) w₁.parties
      rw [hread, hnone]
      exact .stay
    | ok r =>
      rw [hparticipant]
      cases hp : v.participant with
      | none =>
        have hhub : w₁.hubOf (v.current w.store) = .empty w₁.hubs.size := by
          rw [hubOf, hparticipant, hp]
        show w.parties.Talk none none (w₁.setHub (w₁.hubOf (v.current w.store))).parties
        rw [hhub, parties_setHub_empty, hread]
        exact .stay
      | some p =>
        have hseated := seated?_view hv hp
        obtain ⟨h, hh, -⟩ := hw.place (.view n) p hseated
        have hhub : w₁.hubOf (v.current w.store) = h :=
          hubOf_eq (hparticipant.trans hp) (hhubs ▸ hh)
        show w.parties.Talk none (some (p.hub, ⟨p.id, r.timestamp⟩))
          (w₁.setHub ((w₁.hubOf (v.current w.store)).publish p r.timestamp)).parties
        have hseated₁ : w₁.seated? (.view n) = some p :=
          (congrFun (congrArg Parties.seated hread) (.view n)).trans hseated
        rw [hhub, ← hread]
        rw [← hread] at hw
        exact talk_setHub hw hseated₁ (hhubs ▸ hh) r.timestamp

theorem talk_follow (hw : w.parties.Tidy) :
    w.parties.Talk (w.listener? (.view n .follow)) none (w.apply (.view n .follow)).parties := by
  rw [listener?, apply, applyToView]
  cases hv : w.view? n with
  | none =>
    rw [seated?, followView, hv]
    exact .stay
  | some v =>
    have hset : ((w.followView n).map Prod.snd).getD w
        = w.setView n (v.follow w.store (w.hubOf v)).2 := by
      rw [followView, hv]
      rfl
    rw [hset]
    cases hp : v.participant with
    | none =>
      rw [View.follow, hp, setView_self hv, seated?, hv]
      show w.parties.Talk (v.participant.map Participant.identity) none w.parties
      rw [hp]
      exact .stay
    | some p =>
      have hseated := seated?_view hv hp
      obtain ⟨h, hh, -⟩ := hw.place (.view n) p hseated
      rw [parties_setView hv, View.participant_follow w.store (w.hubOf v) hp, hubOf_eq hp hh,
        hseated]
      exact .hear hseated hh

theorem talk_attach (participant : Nat) :
    w.parties.Talk none none (w.apply (.view n (.attach participant))).parties := by
  rw [apply, applyToView, attach]
  cases hv : w.view? n with
  | none => exact .stay
  | some v =>
    cases hp : w.participant? participant with
    | none => exact .stay
    | some p =>
      have hseated : (leave (w.setView n (v.attach p)) participant).seated?
          = Function.update (w.setView n (v.attach p)).seated? (.own participant) none :=
        seated?_setParticipant (.inr rfl)
      have hset : (w.setView n (v.attach p)).seated?
          = Function.update w.seated? (.view n) (some p) :=
        congrArg Parties.seated (parties_setView hv (v.attach p))
      show w.parties.Talk none none ⟨w.hubs, (leave (w.setView n (v.attach p)) participant).seated?⟩
      rw [hseated, hset]
      exact .move hp

/-- **What an operation on a view makes of hubs and participants.** -/
theorem talk_applyToView (h : w.parties.Tidy) (op : ViewOperation) :
    w.parties.Talk (w.listener? (.view n op)) (w.publication? (.view n op))
      (w.apply (.view n op)).parties := by
  have hstay : ∀ {w' : Workspace}, w'.parties = w.parties →
      w.parties.Talk none none w'.parties := by
    intro w' hsame
    rw [hsame]
    exact .stay
  cases op with
  | read =>
    refine hstay ?_
    rw [apply, applyToView, readView]
    cases hv : w.view? n with
    | none => rfl
    | some v => exact parties_setView_of_eq hv (View.ignoresAccount_participant.current v w.store)
  | setFilter filter => exact hstay (parties_changeView fun v v' => participant_of_setFilter)
  | setFilterText text =>
    exact hstay (parties_changeView fun v v' => participant_of_setFilterText)
  | setTemplate text => exact hstay (parties_changeView fun v v' => participant_of_setTemplate)
  | refresh =>
    refine hstay (parties_changeView ?_)
    intro v v' hv'
    cases hv'
    exact View.ignoresAccount_participant.refresh v w.store
  | takeNotices =>
    refine hstay ?_
    rw [apply, applyToView, takeNotices]
    cases hv : w.view? n with
    | none => rfl
    | some v => exact parties_setView_of_eq hv rfl
  | select row => exact talk_select h row
  | follow => exact talk_follow h
  | attach participant => exact talk_attach participant
  | drop =>
    have hseated : (w.dropView n).seated? = Function.update w.seated? (.view n) none := by
      have hparticipants : (w.dropView n).participants = w.participants := rfl
      have hviews : (w.dropView n).views = w.views.setIfInBounds n none := rfl
      exact seated?_of_views hparticipants hviews (.inr rfl)
    show w.parties.Talk none none ⟨w.hubs, (w.dropView n).seated?⟩
    rw [hseated]
    exact .leave (.view n)

theorem seated?_join (w : Workspace) (hubs : Array Hub) (p : Participant) :
    seated? { w with hubs, participants := w.participants.push (some p) }
      = Function.update w.seated? (.own w.participants.size) (some p) := by
  funext s
  cases s with
  | view m =>
    have hother : Seat.view m ≠ .own w.participants.size := nofun
    rw [Function.update_of_ne hother]
    rfl
  | own m =>
    show (w.participants.push (some p))[m]?.join = _
    rw [Array.getElem?_push]
    split
    · next hm =>
      rw [hm, Function.update_self]
      rfl
    · next hm =>
      rw [Function.update_of_ne (by simpa using hm)]
      rfl

theorem seated?_openView (w : Workspace) : w.openView.2.seated? = w.seated? := by
  funext s
  cases s with
  | own m => rfl
  | view m =>
    rw [seated?, seated?, view?_openView]
    split
    · next hm =>
      -- a view begins on its own
      rw [hm, view?, Array.getElem?_eq_none (Nat.le_refl _)]
      exact View.ignoresAccount_participant.current _ w.store
    · rfl

/-- **What an operation makes of hubs and participants.** -/
theorem talk_apply (hw : w.parties.Tidy) (op : Operation) :
    w.parties.Talk (w.listener? op) (w.publication? op) (w.apply op).parties := by
  cases op with
  | enqueue r => exact .stay
  | send r =>
    rcases apply_send_cases w r with h | h
    · rw [h]
      exact .stay
    · rw [h]
      exact .stay
  | drain => exact .stay
  | clear => exact .stay
  | release => exact .stay
  | subscribe => exact .stay
  | poll observer =>
    rw [apply, poll]
    cases w.observers[observer]? <;> exact .stay
  | openHub => exact .openHub
  | join k =>
    rw [listener?, apply, join]
    cases hh : w.hubs[k]? with
    | none => exact .stay
    | some h =>
      have hnumber : h.join.2.number = k := hw.number k h hh
      have hempty : w.seated? (.own w.participants.size) = none := by
        rw [seated?, participant?, Array.getElem?_eq_none (Nat.le_refl _)]
        rfl
      show w.parties.Talk (some (k, h.joined)) none
        ⟨w.hubs.setIfInBounds h.join.2.number h.join.2, seated? { w with
          hubs := w.hubs.setIfInBounds h.join.2.number h.join.2
          participants := w.participants.push (some h.join.1) }⟩
      rw [seated?_join, hnumber]
      exact .join hh hempty
  | publish n timestamp =>
    rw [publication?, apply, publish]
    cases hp : w.participant? n with
    | none =>
      rw [seated?, hp]
      exact .stay
    | some p =>
      obtain ⟨h, hh, -⟩ := hw.place (.own n) p hp
      simp only [Option.bind_eq_bind, Option.bind_some]
      have hh : w.hubs[p.hub]? = some h := hh
      rw [hh, seated?, hp]
      exact talk_setHub hw (s := .own n) hp hh timestamp
  | latest n =>
    rw [listener?, apply, latest]
    cases hp : w.participant? n with
    | none =>
      rw [seated?, hp]
      exact .stay
    | some p =>
      obtain ⟨h, hh, -⟩ := hw.place (.own n) p hp
      simp only [Option.bind_eq_bind, Option.bind_some]
      have hh : w.hubs[p.hub]? = some h := hh
      rw [hh, seated?, hp]
      show w.parties.Talk (some p.identity) none ⟨w.hubs, (w.setParticipant n _).seated?⟩
      rw [seated?_setParticipant (.inl (lt_of_participant? hp))]
      exact .hear (s := .own n) hp hh
  | leave n =>
    show w.parties.Talk none none ⟨w.hubs, (w.setParticipant n none).seated?⟩
    rw [seated?_setParticipant (.inr rfl)]
    exact .leave (.own n)
  | openView =>
    show w.parties.Talk none none ⟨w.hubs, w.openView.2.seated?⟩
    rw [seated?_openView]
    exact .stay
  | view n op => exact talk_applyToView hw op

/-! ## Runs -/

/-- What is selected in hub `k` by operations one after the other. -/
def published (k : Nat) : Workspace → List Operation → List Selection
  | _, [] => []
  | w, op :: ops => Parties.inHub k (w.publication? op) ++ (w.apply op).published k ops

/-- At the beginning nobody has joined. -/
theorem seated?_initial (s : Seat) : initial.seated? s = none := by
  cases s <;> rfl

theorem tidy_initial : initial.parties.Tidy where
  number := by
    intro k h hh
    cases k with
    | zero =>
      cases hh
      rfl
    | succ k => cases hh
  place := by
    intro s p hp
    cases (seated?_initial s).symm.trans hp
  apart := by
    intro s s' p p' hp
    cases (seated?_initial s).symm.trans hp

theorem tidy_run (hw : w.parties.Tidy) (ops : List Operation) : (w.run ops).parties.Tidy := by
  induction ops generalizing w with
  | nil => exact hw
  | cons op ops ih => exact ih ((talk_apply hw op).tidy hw)

/-- All that was selected is what was published. -/
theorem selected_run (hw : w.parties.Tidy) (k : Nat) (ops : List Operation) :
    (w.run ops).parties.selected k = w.parties.selected k ++ w.published k ops := by
  induction ops generalizing w with
  | nil => exact (List.append_nil _).symm
  | cons op ops ih =>
    have hstep := talk_apply hw op
    rw [run_cons, ih (hstep.tidy hw), hstep.selected_append, published, List.append_assoc]

theorem selected_run_initial (k : Nat) (ops : List Operation) :
    (initial.run ops).parties.selected k = initial.published k ops := by
  rw [selected_run tidy_initial]
  cases k <;> rfl

/-- In the whole stretch the participant with the identity does not listen. -/
def Deaf (identity : Nat × Nat) : Workspace → List Operation → Prop
  | _, [] => True
  | w, op :: ops => w.listener? op ≠ some identity ∧ Deaf identity (w.apply op) ops

instance decidableDeaf (identity : Nat × Nat) :
    (w : Workspace) → (ops : List Operation) → Decidable (Deaf identity w ops)
  | _, [] => .isTrue trivial
  | w, op :: ops =>
    have := decidableDeaf identity (w.apply op) ops
    inferInstanceAs (Decidable (w.listener? op ≠ some identity ∧ Deaf identity (w.apply op) ops))

/-- A participant that does not listen keeps its place. -/
theorem seated_of_deaf (hw : w.parties.Tidy) {ops : List Operation} {s : Seat} {p : Participant}
    (hdeaf : Deaf p.identity w ops) (hp : (w.run ops).seated? s = some p) :
    ∃ s₀, w.seated? s₀ = some p := by
  induction ops generalizing w with
  | nil => exact ⟨s, hp⟩
  | cons op ops ih =>
    obtain ⟨hop, hops⟩ := hdeaf
    have hstep := talk_apply hw op
    obtain ⟨s₁, hs₁⟩ := ih (hstep.tidy hw) hops hp
    rcases hstep.seated_cases hw hs₁ with ⟨hlistener, -⟩ | ⟨-, hbefore⟩
    · exact absurd hlistener hop
    · exact hbefore

/-- The operations of a run from `w` are cut at the latest one in which the participant with the
identity listened. -/
structure LatestHearing (w : Workspace) (identity : Nat × Nat) (ops before : List Operation)
    (hearing : Operation) (between : List Operation) : Prop where
  split : ops = before ++ hearing :: between
  listens : (w.run before).listener? hearing = some identity
  deaf : Deaf identity ((w.run before).apply hearing) between

/-- A participant has listened since the beginning, or was there already. -/
theorem exists_latestHearing (hw : w.parties.Tidy) {ops : List Operation} {s : Seat}
    {p : Participant} (hp : (w.run ops).seated? s = some p) :
    ((∃ s₀, w.seated? s₀ = some p) ∧ Deaf p.identity w ops) ∨
      ∃ before hearing between, LatestHearing w p.identity ops before hearing between := by
  -- from the front: either the participant listens in the rest, or the first operation is the latest
  induction ops generalizing w with
  | nil => exact .inl ⟨⟨s, hp⟩, trivial⟩
  | cons op ops ih =>
    have hstep := talk_apply hw op
    rcases ih (hstep.tidy hw) hp with ⟨⟨s₁, hs₁⟩, hdeaf⟩ |
      ⟨before, hearing, between, hsplit, hlistens, hdeaf⟩
    · rcases hstep.seated_cases hw hs₁ with ⟨hlistener, -⟩ | ⟨hop, hbefore⟩
      · exact .inr ⟨[], op, ops, rfl, hlistener, hdeaf⟩
      · exact .inl ⟨hbefore, hop, hdeaf⟩
    · refine .inr ⟨op :: before, hearing, between, ?_, hlistens, hdeaf⟩
      rw [hsplit, List.cons_append]

theorem exists_latestHearing_initial {ops : List Operation} {s : Seat} {p : Participant}
    (hp : (initial.run ops).seated? s = some p) :
    ∃ before hearing between, LatestHearing initial p.identity ops before hearing between := by
  refine (exists_latestHearing tidy_initial hp).resolve_left ?_
  rintro ⟨⟨s₀, hs₀⟩, -⟩
  cases (seated?_initial s₀).symm.trans hs₀

/-! ## Answers -/

/-- What the participant in a seat is told if it asks. -/
def answer? (w : Workspace) (s : Seat) : Option (Option Timestamp) := do
  let p ← w.seated? s
  let h ← w.hubs[p.hub]?
  return (h.latest p).1

theorem fst_latest (w : Workspace) (n : Nat) :
    (w.latest n).map Prod.fst = w.answer? (.own n) := by
  rw [latest, answer?, seated?]
  cases w.participant? n with
  | none => rfl
  | some p =>
    simp only [Option.bind_eq_bind, Option.bind_some]
    cases w.hubs[p.hub]? <;> rfl

/-- **A participant is told what is new to it.** -/
theorem tells_of_latestHearing {ops before between : List Operation} {hearing : Operation}
    {s : Seat} {p : Participant} (hp : (initial.run ops).seated? s = some p)
    (h : LatestHearing initial p.identity ops before hearing between) :
    let heard := initial.published p.hub (before ++ [hearing])
    let news := ((initial.run before).apply hearing).published p.hub between
    initial.published p.hub ops = heard ++ news ∧
      ∃ answer, (initial.run ops).answer? s = some answer ∧ Tells p.id news answer := by
  intro heard news
  have hbefore := tidy_run tidy_initial before
  have hstep := talk_apply hbefore hearing
  have hrun : initial.run ops = ((initial.run before).apply hearing).run between := by
    rw [h.split, run_append]
    rfl
  have hlog : initial.published p.hub ops = heard ++ news := by
    rw [← selected_run_initial, hrun, selected_run (hstep.tidy hbefore), ← run_concat,
      selected_run_initial, run_concat]
  -- the participant's place is where the log was cut
  have hcursor : p.cursor = heard.length := by
    obtain ⟨s₀, hs₀⟩ := seated_of_deaf (hstep.tidy hbefore) h.deaf (hrun ▸ hp)
    rcases hstep.seated_cases hbefore hs₀ with ⟨-, hcursor⟩ | ⟨hlistener, -⟩
    · rw [hcursor, ← run_concat, selected_run_initial]
    · exact absurd h.listens hlistener
  obtain ⟨hub, hhub, -⟩ := (tidy_run tidy_initial ops).place s p hp
  have hsent : hub.selections.sent.toList = heard ++ news := by
    rw [← hlog, ← selected_run_initial, Parties.selected_eq hhub]
  refine ⟨hlog, lastOfOthers p.id (newest selectionCapacity news), ?_, tells_lastOfOthers p.id news⟩
  have hhub : (initial.run ops).hubs[p.hub]? = some hub := hhub
  rw [answer?, hp]
  simp only [Option.bind_eq_bind, Option.bind_some, hhub]
  rw [Hub.latest_eq hsent hcursor]
  rfl

/-- **What a participant hears.** In every run a participant is told apart from all others, and it
has listened since it joined, at some latest operation. What it is told, if it asks, is the last
selection of somebody else among those that are new to it and still kept; what it was told the last
time was selected before all of these. -/
theorem hears_of_run (ops : List Operation) (s : Seat) (p : Participant)
    (hp : (initial.run ops).seated? s = some p) :
    (∀ s' q, (initial.run ops).seated? s' = some q → q.identity = p.identity → s' = s) ∧
      (∃ before hearing between, LatestHearing initial p.identity ops before hearing between) ∧
      ∀ before hearing between, LatestHearing initial p.identity ops before hearing between →
        let heard := initial.published p.hub (before ++ [hearing])
        let news := ((initial.run before).apply hearing).published p.hub between
        initial.published p.hub ops = heard ++ news ∧
          (∃ answer, (initial.run ops).answer? s = some answer ∧ Tells p.id news answer ∧
            ∀ n, s = .own n → ((initial.run ops).latest n).map Prod.fst = some answer) ∧
          ∀ s₀ p₀ timestamp, (initial.run before).seated? s₀ = some p₀ →
            p₀.identity = p.identity → (initial.run before).answer? s₀ = some (some timestamp) →
            ∃ earlier source later, heard = earlier ++ ⟨source, timestamp⟩ :: later ∧
              source ≠ p.id ∧ ∀ x ∈ later, x.source = p.id := by
  refine ⟨?_, ?_, ?_⟩
  · intro s' q hq hidentity
    exact (tidy_run tidy_initial ops).apart s' s q p hq hp hidentity
  · exact exists_latestHearing_initial hp
  · intro before hearing between hlatest heard news
    obtain ⟨hlog, answer, hanswer, htells⟩ := tells_of_latestHearing hp hlatest
    refine ⟨hlog, ⟨answer, hanswer, htells, ?_⟩, ?_⟩
    · rintro n rfl
      rw [fst_latest, hanswer]
    · intro s₀ p₀ timestamp hp₀ hidentity hanswer₀
      obtain ⟨hhub, hid⟩ := Prod.mk.inj hidentity
      have hheard : heard = initial.published p.hub before := by
        show initial.published p.hub (before ++ [hearing]) = _
        rw [← selected_run_initial, ← selected_run_initial, run_concat,
          (talk_apply (tidy_run tidy_initial before) hearing).selected_append,
          publication?_of_listener? hlatest.listens]
        exact List.append_nil _
      obtain ⟨before', hearing', between', hlatest'⟩ := exists_latestHearing_initial hp₀
      obtain ⟨hlog', answer', hanswer', htells'⟩ := tells_of_latestHearing hp₀ hlatest'
      cases hanswer'.symm.trans hanswer₀
      obtain ⟨earlier, source, later, hnews, hother, hlater, -⟩ := htells'.others timestamp rfl
      rw [hnews, ← List.append_assoc, hhub] at hlog'
      rw [hid] at hother hlater
      exact ⟨_, source, later, hheard.trans hlog', hother, hlater⟩

/-- A participant that asked once, and then selected more itself than a hub keeps, does not hear of
the selection before. -/
theorem hears_behind_own_selections :
    let before : List Operation := [.join 0, .join 0, .publish 0 5]
    let between : List Operation := .publish 0 6 :: List.replicate 64 (.publish 1 7)
    let w := initial.run (before ++ .latest 1 :: between)
    ∃ p, w.seated? (.own 1) = some p ∧
      LatestHearing initial p.identity (before ++ .latest 1 :: between) before (.latest 1) between ∧
      (w.latest 1).map Prod.fst = some none := by
  intro before between w
  have hp : w.seated? (.own 1) = some ⟨0, 1, 1⟩ := by decide +kernel
  have hlatest : LatestHearing initial (0, 1) (before ++ .latest 1 :: between) before (.latest 1)
      between := ⟨rfl, rfl, by decide +kernel⟩
  obtain ⟨-, -, hears⟩ := hears_of_run _ (.own 1) _ hp
  obtain ⟨-, ⟨answer, -, htells, hanswer⟩, -⟩ := hears before (.latest 1) between hlatest
  have hnone : answer = none := htells.newest.trans (by decide +kernel)
  exact ⟨_, hp, hlatest, (hanswer 1 rfl).trans (congrArg some hnone)⟩

end Workspace

end TraceViews
