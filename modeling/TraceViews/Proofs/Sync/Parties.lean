import Mathlib.Logic.Function.Basic
import TraceViews.Proofs.Sync.Delivery

/-!
# Hubs and their participants

A participant is on its own or sits in a view, and may move from one seat to another. What can
happen to hubs and seats is told once (`Parties.Talk`): a step says who listened and what was
selected. From it follow the facts that hold in every run (`Parties.Tidy`): participants are told
apart by their identities, and a place in the selections is the point up to which its holder has
listened.
-/

namespace TraceViews

/-- Where a participant is: on its own, or in a view. -/
inductive Seat where
  | own (n : Nat)
  | view (n : Nat)
  deriving DecidableEq

/-- The hub of a participant, and its number there. -/
def Participant.identity (p : Participant) : Nat × Nat := (p.hub, p.id)

/-- Hubs with their participants. -/
structure Parties where
  hubs : Array Hub
  seated : Seat → Option Participant

namespace Parties

/-- All that has been selected in a hub. -/
def selected (x : Parties) (k : Nat) : List Selection :=
  (x.hubs[k]?.map fun h => h.selections.sent.toList).getD []

theorem selected_eq {x : Parties} {k : Nat} {h : Hub} (hh : x.hubs[k]? = some h) :
    x.selected k = h.selections.sent.toList := by
  rw [selected, hh]
  rfl

/-! ## Steps -/

/-- **What a step can do** to hubs and participants. It says who has listened to its hub, by joining
or by asking for what is new, and what has been selected in which hub. -/
inductive Talk (x : Parties) : Option (Nat × Nat) → Option (Nat × Selection) → Parties → Prop where
  | stay : Talk x none none x
  | openHub : Talk x none none { x with hubs := x.hubs.push (.empty x.hubs.size) }
  | join {k : Nat} {h : Hub} {s : Seat} (hh : x.hubs[k]? = some h) (hs : x.seated s = none) :
    Talk x (some (k, h.joined)) none
      ⟨x.hubs.setIfInBounds k h.join.2, Function.update x.seated s (some h.join.1)⟩
  | publish {s : Seat} {p : Participant} {h : Hub} (hp : x.seated s = some p)
    (hh : x.hubs[p.hub]? = some h) (timestamp : Timestamp) :
    Talk x none (some (p.hub, ⟨p.id, timestamp⟩))
      { x with hubs := x.hubs.setIfInBounds p.hub (h.publish p timestamp) }
  | hear {s : Seat} {p : Participant} {h : Hub} (hp : x.seated s = some p)
    (hh : x.hubs[p.hub]? = some h) :
    Talk x (some p.identity) none
      { x with seated := Function.update x.seated s (some (h.latest p).2) }
  | leave (s : Seat) : Talk x none none { x with seated := Function.update x.seated s none }
  | move {s target : Seat} {p : Participant} (hp : x.seated s = some p) :
    Talk x none none
      { x with seated := Function.update (Function.update x.seated target (some p)) s none }

/-- What is selected in hub `k`. -/
def inHub (k : Nat) (publication : Option (Nat × Selection)) : List Selection :=
  ((publication.filter fun x => x.1 = k).map Prod.snd).toList

/-! ## What holds in every run -/

/-- A participant has a place in a hub: it has joined it, and its place is not ahead of the
selections. -/
def HasPlace (hubs : Array Hub) (p : Participant) : Prop :=
  ∃ h, hubs[p.hub]? = some h ∧ p.id < h.joined ∧ p.cursor ≤ h.selections.sent.size

/-- Hubs are numbered, participants have joined them, and no two have the same identity. -/
structure Tidy (x : Parties) : Prop where
  number : ∀ (k : Nat) (h : Hub), x.hubs[k]? = some h → h.number = k
  place : ∀ s p, x.seated s = some p → HasPlace x.hubs p
  apart : ∀ s s' p p', x.seated s = some p → x.seated s' = some p' → p.identity = p'.identity →
    s = s'

section

variable {hubs : Array Hub} {k : Nat} {h h' : Hub} {p : Participant}

theorem lt_size (hh : hubs[k]? = some h) : k < hubs.size :=
  (Array.getElem?_eq_some_iff.1 hh).1

theorem HasPlace.push (hp : HasPlace hubs p) (h : Hub) : HasPlace (hubs.push h) p := by
  obtain ⟨g, hg, hplace⟩ := hp
  refine ⟨g, ?_, hplace⟩
  rw [Array.getElem?_push, if_neg (Nat.ne_of_lt (lt_size hg)), hg]

/-- There is room in a hub that goes on from another one. -/
theorem HasPlace.setIfInBounds (hp : HasPlace hubs p) (hh : hubs[k]? = some h)
    (hjoined : h.joined ≤ h'.joined)
    (hsent : h.selections.sent.size ≤ h'.selections.sent.size) :
    HasPlace (hubs.setIfInBounds k h') p := by
  obtain ⟨g, hg, hid, hcursor⟩ := hp
  by_cases hk : k = p.hub
  · subst hk
    cases hh.symm.trans hg
    refine ⟨h', ?_, Nat.lt_of_lt_of_le hid hjoined, Nat.le_trans hcursor hsent⟩
    rw [Array.getElem?_setIfInBounds_self, if_pos (lt_size hh)]
  · exact ⟨g, by rw [Array.getElem?_setIfInBounds_ne hk, hg], hid, hcursor⟩

end

/-- Who sits somewhere behind a change of one seat. -/
theorem cases_of_update {seated : Seat → Option Participant} {s s' : Seat}
    {o : Option Participant} {q : Participant} (h : Function.update seated s o s' = some q) :
    s' = s ∧ o = some q ∨ s' ≠ s ∧ seated s' = some q := by
  by_cases hs : s' = s
  · rw [hs, Function.update_self] at h
    exact .inl ⟨hs, h⟩
  · rw [Function.update_of_ne hs] at h
    exact .inr ⟨hs, h⟩

section Tidy

variable {x : Parties} (hx : x.Tidy) {k : Nat} {h h' : Hub} {s target : Seat} {p : Participant}
include hx

/-- Whoever has joined already is not the next one. -/
theorem Tidy.ne_joined (hh : x.hubs[k]? = some h) (hp : x.seated s = some p) :
    p.identity ≠ (k, h.joined) := by
  intro hidentity
  obtain ⟨g, hg, hid, -⟩ := hx.place s p hp
  obtain ⟨hhub, hjoined⟩ := Prod.mk.inj hidentity
  rw [hhub, hh] at hg
  cases hg
  exact Nat.ne_of_lt hid hjoined

theorem Tidy.identity_join (hh : x.hubs[k]? = some h) : h.join.1.identity = (k, h.joined) :=
  congrArg (·, h.joined) (hx.number k h hh)

theorem Tidy.push : Tidy { x with hubs := x.hubs.push (.empty x.hubs.size) } where
  number := by
    intro k h hh
    rw [Array.getElem?_push] at hh
    split at hh
    · next hk =>
      cases hh
      exact hk.symm
    · exact hx.number k h hh
  place := fun s p hp => (hx.place s p hp).push _
  apart := hx.apart

/-- A hub goes on. -/
theorem Tidy.setHub (hh : x.hubs[k]? = some h) (hnumber : h'.number = h.number)
    (hjoined : h.joined ≤ h'.joined)
    (hsent : h.selections.sent.size ≤ h'.selections.sent.size) :
    Tidy { x with hubs := x.hubs.setIfInBounds k h' } where
  number := by
    intro j g hg
    rw [Array.getElem?_setIfInBounds] at hg
    split at hg
    · next hj =>
      rw [if_pos (lt_size hh)] at hg
      cases hg
      rw [hnumber, hx.number k h hh, hj]
    · exact hx.number j g hg
  place := fun s p hp => (hx.place s p hp).setIfInBounds hh hjoined hsent
  apart := hx.apart

/-- A participant takes a seat. -/
theorem Tidy.seat (hplace : HasPlace x.hubs p)
    (hnew : ∀ s' q, s' ≠ s → x.seated s' = some q → q.identity ≠ p.identity) :
    Tidy { x with seated := Function.update x.seated s (some p) } where
  number := hx.number
  place := by
    intro s' q hq
    rcases cases_of_update hq with ⟨-, hq⟩ | ⟨-, hq⟩
    · cases hq
      exact hplace
    · exact hx.place s' q hq
  apart := by
    intro s₁ s₂ p₁ p₂ h₁ h₂ hidentity
    rcases cases_of_update h₁ with ⟨hs₁, h₁⟩ | ⟨hs₁, h₁⟩
    · rcases cases_of_update h₂ with ⟨hs₂, -⟩ | ⟨hs₂, h₂⟩
      · rw [hs₁, hs₂]
      · cases h₁
        exact absurd hidentity.symm (hnew s₂ p₂ hs₂ h₂)
    · rcases cases_of_update h₂ with ⟨-, h₂⟩ | ⟨-, h₂⟩
      · cases h₂
        exact absurd hidentity (hnew s₁ p₁ hs₁ h₁)
      · exact hx.apart s₁ s₂ p₁ p₂ h₁ h₂ hidentity

/-- A seat becomes empty. -/
theorem Tidy.unseat (s : Seat) : Tidy { x with seated := Function.update x.seated s none } := by
  have hkept : ∀ s' q, Function.update x.seated s none s' = some q → x.seated s' = some q := by
    intro s' q hq
    rcases cases_of_update hq with ⟨-, hq⟩ | ⟨-, hq⟩
    · cases hq
    · exact hq
  exact ⟨hx.number, fun s' q hq => hx.place s' q (hkept s' q hq),
    fun s₁ s₂ p₁ p₂ h₁ h₂ => hx.apart s₁ s₂ p₁ p₂ (hkept s₁ p₁ h₁) (hkept s₂ p₂ h₂)⟩

end Tidy

variable {x y : Parties} {listener : Option (Nat × Nat)} {publication : Option (Nat × Selection)}

/-- **Every step leaves hubs and participants tidy.** -/
theorem Talk.tidy (ht : x.Talk listener publication y) (hx : x.Tidy) : y.Tidy := by
  cases ht with
  | stay => exact hx
  | openHub => exact hx.push
  | @join k h s hh hs =>
    have hhubs : Tidy { x with hubs := x.hubs.setIfInBounds k h.join.2 } :=
      hx.setHub hh rfl (Nat.le_succ _) (Nat.le_refl _)
    refine hhubs.seat ?_ ?_
    · refine ⟨h.join.2, ?_, Nat.lt_succ_self _, Nat.le_refl _⟩
      show (x.hubs.setIfInBounds k h.join.2)[h.number]? = _
      rw [hx.number k h hh, Array.getElem?_setIfInBounds_self, if_pos (lt_size hh)]
    · intro s' q hs' hq
      rw [hx.identity_join hh]
      exact hx.ne_joined hh hq
  | publish hp hh timestamp =>
    refine hx.setHub hh rfl (Nat.le_refl _) ?_
    rw [Hub.publish, Broadcast.send, Array.size_push]
    exact Nat.le_succ _
  | @hear s p h hp hh =>
    refine hx.seat ?_ ?_
    · obtain ⟨g, hg, hid, -⟩ := hx.place s p hp
      cases hh.symm.trans hg
      exact ⟨h, hh, hid, Nat.le_refl _⟩
    · intro s' q hs' hq hidentity
      exact hs' (hx.apart s' s q p hq hp hidentity)
  | leave s => exact hx.unseat s
  | @move s target p hp =>
    by_cases hs : target = s
    · subst hs
      rw [Function.update_idem]
      exact hx.unseat target
    · rw [Function.update_comm hs]
      refine (hx.unseat s).seat (hx.place s p hp) ?_
      intro s' q hs' hq hidentity
      rcases cases_of_update hq with ⟨-, hq⟩ | ⟨hne, hq⟩
      · cases hq
      · exact hne (hx.apart s' s q p hq hp hidentity)

theorem selected_setHub {k : Nat} {h h' : Hub} (hh : x.hubs[k]? = some h) (j : Nat) :
    selected { x with hubs := x.hubs.setIfInBounds k h' } j
      = if k = j then h'.selections.sent.toList else x.selected j := by
  rw [selected, Array.getElem?_setIfInBounds]
  split
  · rw [if_pos (lt_size hh)]
    rfl
  · rfl

/-- **A step appends what is selected.** -/
theorem Talk.selected_append (ht : x.Talk listener publication y) (k : Nat) :
    y.selected k = x.selected k ++ inHub k publication := by
  cases ht with
  | openHub =>
    rw [selected, Array.getElem?_push]
    split
    · next hk =>
      -- a hub that is new had no selections before
      rw [selected, hk, Array.getElem?_eq_none (Nat.le_refl _)]
      rfl
    · exact (List.append_nil _).symm
  | @join j h s hh hs =>
    refine (selected_setHub hh k).trans ?_
    rw [inHub, Option.filter_none, Option.map_none, Option.toList_none, List.append_nil]
    split
    · next hk =>
      rw [← hk, selected_eq hh]
      rfl
    · rfl
  | @publish s p h hp hh timestamp =>
    refine (selected_setHub hh k).trans ?_
    split
    · next hk =>
      rw [← hk, selected_eq hh, inHub, Option.filter_some, if_pos (decide_eq_true rfl)]
      exact Array.toList_push
    · next hk =>
      rw [inHub, Option.filter_some, if_neg (by simpa using hk)]
      exact (List.append_nil _).symm
  | _ => exact (List.append_nil _).symm

/-- **Who sits somewhere** behind a step has just listened, and has heard of all that was selected in
its hub; or it sat somewhere before, and has not listened. -/
theorem Talk.seated_cases (ht : x.Talk listener publication y) (hx : x.Tidy) {s : Seat}
    {p : Participant} (hp : y.seated s = some p) :
    (listener = some p.identity ∧ p.cursor = (y.selected p.hub).length) ∨
      (listener ≠ some p.identity ∧ ∃ s₀, x.seated s₀ = some p) := by
  cases ht with
  | stay => exact .inr ⟨nofun, s, hp⟩
  | openHub => exact .inr ⟨nofun, s, hp⟩
  | publish hp' hh timestamp => exact .inr ⟨nofun, s, hp⟩
  | @join k h s' hh hs =>
    rcases cases_of_update hp with ⟨-, hp⟩ | ⟨-, hp⟩
    · cases hp
      refine .inl ⟨congrArg some (hx.identity_join hh).symm, ?_⟩
      show h.selections.sent.size
        = (selected { x with hubs := x.hubs.setIfInBounds k h.join.2 } h.number).length
      rw [selected_setHub hh, if_pos (hx.number k h hh).symm, Array.length_toList]
      rfl
    · refine .inr ⟨?_, s, hp⟩
      intro hidentity
      exact hx.ne_joined hh hp (Option.some.inj hidentity).symm
  | @hear s' q h hq hh =>
    rcases cases_of_update hp with ⟨-, hp⟩ | ⟨hs, hp⟩
    · cases hp
      refine .inl ⟨rfl, ?_⟩
      show h.selections.sent.size = (x.selected q.hub).length
      rw [selected_eq hh, Array.length_toList]
    · refine .inr ⟨?_, s, hp⟩
      intro hidentity
      exact hs (hx.apart s s' p q hp hq (Option.some.inj hidentity).symm)
  | leave s' =>
    rcases cases_of_update hp with ⟨-, hp⟩ | ⟨-, hp⟩
    · cases hp
    · exact .inr ⟨nofun, s, hp⟩
  | @move s' target q hq =>
    rcases cases_of_update hp with ⟨-, hp⟩ | ⟨-, hp⟩
    · cases hp
    · rcases cases_of_update hp with ⟨-, hp⟩ | ⟨-, hp⟩
      · cases hp
        exact .inr ⟨nofun, s', hq⟩
      · exact .inr ⟨nofun, s, hp⟩

end Parties

end TraceViews
