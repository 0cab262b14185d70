import TraceViews.Proofs.Filter.Binding

/-!
# Evaluation and classical truth

A comparison that fails has no truth value, and evaluation passes over it where it can. Let the
failing comparisons of an expression be given truth values at will (`Expr.Completes`). Main
statement: a truth value that evaluation finds is the classical one, whatever values were given, and
evaluation fails exactly with the error of a comparison that would in any case be the first failing
one to be examined (`evaluate_settles_truth`).
-/

namespace TraceViews

/-- The first element of a list that has a property. -/
def IsFirst {α : Type} (P : α → Prop) (l : List α) (a : α) : Prop :=
  P a ∧ ∃ before after, l = before ++ a :: after ∧ ∀ b ∈ before, ¬ P b

namespace IsFirst

variable {α β : Type} {P : α → Prop} {l l' : List α} {a b : α}

theorem map {Q : β → Prop} {f : α → β} (h : IsFirst P l a) (hf : ∀ a, Q (f a) ↔ P a) :
    IsFirst Q (l.map f) (f a) := by
  obtain ⟨ha, before, after, rfl, hbefore⟩ := h
  refine ⟨(hf a).2 ha, before.map f, after.map f, by rw [List.map_append, List.map_cons], ?_⟩
  intro b hb
  obtain ⟨b', hb', rfl⟩ := List.mem_map.1 hb
  exact fun hQ => hbefore b' hb' ((hf b').1 hQ)

theorem append (h : IsFirst P l a) (l' : List α) : IsFirst P (l ++ l') a := by
  obtain ⟨ha, before, after, rfl, hbefore⟩ := h
  exact ⟨ha, before, after ++ l', by rw [List.append_assoc, List.cons_append], hbefore⟩

theorem behind (h : IsFirst P l a) (hl' : ∀ b ∈ l', ¬ P b) : IsFirst P (l' ++ l) a := by
  obtain ⟨ha, before, after, rfl, hbefore⟩ := h
  exact ⟨ha, l' ++ before, after, (List.append_assoc ..).symm,
    List.forall_mem_append.2 ⟨hl', hbefore⟩⟩

theorem mem (h : IsFirst P l a) : a ∈ l := by
  obtain ⟨-, before, after, rfl, -⟩ := h
  exact List.mem_append_right before List.mem_cons_self

theorem eq_of_cons_eq_append {more after after' : List α} (h : a :: after = more ++ b :: after')
    (ha : a ∉ more) : a = b := by
  cases more with
  | nil =>
    cases h
    rfl
  | cons c more =>
    cases h
    exact absurd List.mem_cons_self ha

theorem unique (h : IsFirst P l a) (h' : IsFirst P l b) : a = b := by
  obtain ⟨ha, before, after, rfl, hbefore⟩ := h
  obtain ⟨hb, before', after', heq, hbefore'⟩ := h'
  -- of two beginnings one is a part of the other
  rcases List.append_eq_append_iff.1 heq with ⟨more, rfl, hmore⟩ | ⟨more, rfl, hmore⟩
  · refine eq_of_cons_eq_append hmore ?_
    intro hmem
    exact hbefore' a (List.mem_append_right before hmem) ha
  · refine (eq_of_cons_eq_append hmore ?_).symm
    intro hmem
    exact hbefore b (List.mem_append_right before' hmem) hb

end IsFirst

namespace Filter

/-! ## Single comparisons -/

namespace Comparison

/-- The comparison is true of a value: the literal is that value, of its kind; the needle stands in
it without a gap; or one of the items is that value, of its kind. -/
def HoldsOf (value : Value) : Comparison → Prop
  | eq _ literal => value = literal
  | contains _ needle => ∃ s, value = .text s ∧ needle.toList <:+: s.toList
  | within _ items => value ∈ items.values

/-- The comparison is true of the value of its field. -/
def HoldsIn (fields : FieldSource) (c : Comparison) : Prop :=
  ∃ value, fields c.name = some value ∧ c.HoldsOf value

variable {fields : FieldSource} {c : Comparison} {x y : EvalError} {b : Bool}

theorem holdsOf_iff_of_holdsAt {value : Value} (h : c.holdsAt value = .ok b) :
    c.HoldsOf value ↔ b = true := by
  cases c with
  | eq name literal =>
    cases h
    exact beq_iff_eq.symm
  | contains name needle =>
    cases value with
    | text s =>
      cases h
      simp [HoldsOf, occursIn_iff]
    | integer n => cases h
  | within name items =>
    cases value <;> cases items <;> cases h <;> simp [HoldsOf, Items.values]

/-- A comparison that has a truth value is true or not as its value says. -/
theorem holdsIn_iff_of_evaluate (h : c.evaluate fields = .ok b) : c.HoldsIn fields ↔ b = true := by
  rw [evaluate] at h
  cases hvalue : fields c.name with
  | none =>
    rw [hvalue] at h
    cases h
  | some value =>
    rw [hvalue] at h
    rw [← holdsOf_iff_of_holdsAt h, HoldsIn]
    simp [hvalue]

theorem not_fails_of_evaluate (h : c.evaluate fields = .ok b) (x : EvalError) :
    ¬ c.Fails (kindsOf fields) x := by
  intro hfails
  cases h.symm.trans (evaluate_eq_error_iff.2 hfails)

theorem Fails.unique {schema : FieldSchema} (h : c.Fails schema x) (h' : c.Fails schema y) :
    x = y := by
  cases (bind_eq_error_iff.2 h).symm.trans (bind_eq_error_iff.2 h')
  rfl

end Comparison

/-! ## Places in an expression -/

/-- A step from an expression to one of its operands. -/
inductive Branch where
  | operand
  | left
  | right
  deriving DecidableEq, Repr

/-- The place of a comparison: the steps that lead to it. -/
abbrev Place := List Branch

/-- Truth values for the comparisons of an expression, by their places. -/
abbrev Assignment := Place → Bool

/-- The truth values behind a step. -/
def Assignment.below (σ : Assignment) (step : Branch) : Assignment := fun p => σ (step :: p)

namespace Expr

/-- The comparison at a place. -/
def at? : Expr → Place → Option Comparison
  | test c, [] => some c
  | not operand, .operand :: p => operand.at? p
  | and left _, .left :: p => left.at? p
  | and _ right, .right :: p => right.at? p
  | or left _, .left :: p => left.at? p
  | or _ right, .right :: p => right.at? p
  | _, _ => none

/-- The classical truth value of an expression whose comparisons have these truth values. -/
def truth : Expr → Assignment → Bool
  | test _, σ => σ []
  | not operand, σ => !operand.truth (σ.below .operand)
  | and left right, σ => left.truth (σ.below .left) && right.truth (σ.below .right)
  | or left right, σ => left.truth (σ.below .left) || right.truth (σ.below .right)

/-- The places that are examined, from left to right and only as long as the result is open, where
the comparisons have these truth values. -/
def examined : Expr → Assignment → List Place
  | test _, _ => [[]]
  | not operand, σ => (operand.examined (σ.below .operand)).map (.operand :: ·)
  | and left right, σ => (left.examined (σ.below .left)).map (.left :: ·) ++
      if left.truth (σ.below .left) then (right.examined (σ.below .right)).map (.right :: ·) else []
  | or left right, σ => (left.examined (σ.below .left)).map (.left :: ·) ++
      if left.truth (σ.below .left) then [] else (right.examined (σ.below .right)).map (.right :: ·)

/-- The comparison at a place fails on a source. -/
def FailsAt (fields : FieldSource) (e : Expr) (p : Place) (x : EvalError) : Prop :=
  ∃ c, e.at? p = some c ∧ c.Fails (kindsOf fields) x

/-- Comparisons that do not fail have their truth values on the source; those that fail have any. -/
def Completes (fields : FieldSource) (e : Expr) (σ : Assignment) : Prop :=
  ∀ p c, e.at? p = some c → (∀ x, ¬ c.Fails (kindsOf fields) x) →
    (σ p = true ↔ c.HoldsIn fields)

/-- A failing comparison is examined there, and none before. -/
def FailsFirst (fields : FieldSource) (e : Expr) (σ : Assignment) (p : Place) : Prop :=
  IsFirst (fun q => ∃ x, e.FailsAt fields q x) (e.examined σ) p

/-- What a step leads to. -/
inductive IsOperand : Expr → Branch → Expr → Prop where
  | not (operand : Expr) : IsOperand (.not operand) .operand operand
  | andLeft (left right : Expr) : IsOperand (.and left right) .left left
  | andRight (left right : Expr) : IsOperand (.and left right) .right right
  | orLeft (left right : Expr) : IsOperand (.or left right) .left left
  | orRight (left right : Expr) : IsOperand (.or left right) .right right

variable {fields : FieldSource} {e f : Expr} {σ : Assignment} {step : Branch} {p : Place} {b : Bool}
  {x y : EvalError}

theorem FailsAt.unique (h : e.FailsAt fields p x) (h' : e.FailsAt fields p y) : x = y := by
  obtain ⟨c, hc, hfails⟩ := h
  obtain ⟨c', hc', hfails'⟩ := h'
  cases hc.symm.trans hc'
  exact hfails.unique hfails'

namespace IsOperand

theorem at?_cons (h : IsOperand e step f) (p : Place) : e.at? (step :: p) = f.at? p := by
  cases h <;> rfl

theorem completes (h : IsOperand e step f) (hσ : e.Completes fields σ) :
    f.Completes fields (σ.below step) := by
  intro p c hc
  exact hσ (step :: p) c ((h.at?_cons p).trans hc)

theorem failsAt_cons_iff (h : IsOperand e step f) :
    e.FailsAt fields (step :: p) x ↔ f.FailsAt fields p x := by
  rw [FailsAt, FailsAt, h.at?_cons]

/-- If none of the places in an operand fails, none of them does from outside, -/
theorem none_fails (h : IsOperand e step f) {places : List Place}
    (hnone : ∀ p ∈ places, ¬ ∃ x, f.FailsAt fields p x) :
    ∀ p ∈ places.map (step :: ·), ¬ ∃ x, e.FailsAt fields p x := by
  refine List.forall_mem_map.2 ?_
  intro p hp
  simpa only [h.failsAt_cons_iff] using hnone p hp

/-- and the first of them that fails is the first from outside. -/
theorem failsFirst (h : IsOperand e step f) (hfirst : f.FailsFirst fields (σ.below step) p) :
    IsFirst (fun q => ∃ x, e.FailsAt fields q x) ((f.examined (σ.below step)).map (step :: ·))
      (step :: p) := by
  refine hfirst.map ?_
  intro q
  simp only [h.failsAt_cons_iff]

end IsOperand

theorem exists_completes (fields : FieldSource) (e : Expr) : ∃ σ, e.Completes fields σ := by
  classical
  refine ⟨fun p => decide (∃ c, e.at? p = some c ∧ c.HoldsIn fields), ?_⟩
  intro p c hc _
  simp [hc]

/-! ## What evaluation finds -/

/-- **Where evaluation finds a truth value** it is the classical one, and no failing comparison is
examined. -/
theorem truth_of_evaluate (h : e.evaluate fields = .ok b) (hσ : e.Completes fields σ) :
    e.truth σ = b ∧ ∀ p ∈ e.examined σ, ¬ ∃ x, e.FailsAt fields p x := by
  induction e generalizing σ b with
  | test c =>
    have hsound := Comparison.not_fails_of_evaluate h
    refine ⟨?_, ?_⟩
    · rw [Bool.eq_iff_iff]
      exact (hσ [] c rfl hsound).trans (Comparison.holdsIn_iff_of_evaluate h)
    · rintro p hp ⟨x, c', hc', hfails⟩
      cases List.mem_singleton.1 hp
      cases hc'
      exact hsound x hfails
  | not operand ih =>
    have hop := IsOperand.not operand
    rw [evaluate] at h
    split at h
    · next hoperand =>
      cases h
      obtain ⟨htruth, hnone⟩ := ih hoperand (hop.completes hσ)
      exact ⟨congrArg (! ·) htruth, hop.none_fails hnone⟩
    · cases h
  | and left right ihl ihr =>
    have hopl := IsOperand.andLeft left right
    have hopr := IsOperand.andRight left right
    rw [evaluate] at h
    split at h
    · next hleft =>
      obtain ⟨hl, hnonel⟩ := ihl hleft (hopl.completes hσ)
      obtain ⟨hr, hnoner⟩ := ihr h (hopr.completes hσ)
      rw [truth, examined, hl, if_pos rfl]
      exact ⟨hr, List.forall_mem_append.2 ⟨hopl.none_fails hnonel, hopr.none_fails hnoner⟩⟩
    · next hleft =>
      cases h
      obtain ⟨hl, hnonel⟩ := ihl hleft (hopl.completes hσ)
      rw [truth, examined, hl, if_neg Bool.false_ne_true, List.append_nil]
      exact ⟨rfl, hopl.none_fails hnonel⟩
    · cases h
  | or left right ihl ihr =>
    have hopl := IsOperand.orLeft left right
    have hopr := IsOperand.orRight left right
    rw [evaluate] at h
    split at h
    · next hleft =>
      cases h
      obtain ⟨hl, hnonel⟩ := ihl hleft (hopl.completes hσ)
      rw [truth, examined, hl, if_pos rfl, List.append_nil]
      exact ⟨rfl, hopl.none_fails hnonel⟩
    · next hleft =>
      obtain ⟨hl, hnonel⟩ := ihl hleft (hopl.completes hσ)
      obtain ⟨hr, hnoner⟩ := ihr h (hopr.completes hσ)
      rw [truth, examined, hl, if_neg Bool.false_ne_true]
      exact ⟨hr, List.forall_mem_append.2 ⟨hopl.none_fails hnonel, hopr.none_fails hnoner⟩⟩
    · cases h

/-- **Where evaluation fails** the failing comparison is examined first, whatever truth values the
failing ones have. -/
theorem failsFirst_of_evaluate (h : e.evaluate fields = .error x) :
    ∃ p, e.FailsAt fields p x ∧ ∀ σ, e.Completes fields σ → e.FailsFirst fields σ p := by
  induction e with
  | test c =>
    have hfails : (test c).FailsAt fields [] x :=
      ⟨c, rfl, Comparison.evaluate_eq_error_iff.1 h⟩
    exact ⟨[], hfails, fun σ hσ => ⟨⟨x, hfails⟩, [], [], rfl, nofun⟩⟩
  | not operand ih =>
    have hop := IsOperand.not operand
    rw [evaluate] at h
    split at h
    · cases h
    · next hoperand =>
      cases h
      obtain ⟨p, hp, hfirst⟩ := ih hoperand
      refine ⟨.operand :: p, hop.failsAt_cons_iff.2 hp, ?_⟩
      intro σ hσ
      exact hop.failsFirst (hfirst _ (hop.completes hσ))
  | and left right ihl ihr =>
    have hopl := IsOperand.andLeft left right
    have hopr := IsOperand.andRight left right
    rw [evaluate] at h
    split at h
    · next hleft =>
      -- the left operand is true under all truth values, and so the right one is examined
      obtain ⟨p, hp, hfirst⟩ := ihr h
      refine ⟨.right :: p, hopr.failsAt_cons_iff.2 hp, ?_⟩
      intro σ hσ
      obtain ⟨hl, hnonel⟩ := truth_of_evaluate hleft (hopl.completes hσ)
      rw [FailsFirst, examined, hl, if_pos rfl]
      exact (hopr.failsFirst (hfirst _ (hopr.completes hσ))).behind (hopl.none_fails hnonel)
    · cases h
    · next hleft =>
      cases h
      obtain ⟨p, hp, hfirst⟩ := ihl hleft
      refine ⟨.left :: p, hopl.failsAt_cons_iff.2 hp, ?_⟩
      intro σ hσ
      exact (hopl.failsFirst (hfirst _ (hopl.completes hσ))).append _
  | or left right ihl ihr =>
    have hopl := IsOperand.orLeft left right
    have hopr := IsOperand.orRight left right
    rw [evaluate] at h
    split at h
    · cases h
    · next hleft =>
      obtain ⟨p, hp, hfirst⟩ := ihr h
      refine ⟨.right :: p, hopr.failsAt_cons_iff.2 hp, ?_⟩
      intro σ hσ
      obtain ⟨hl, hnonel⟩ := truth_of_evaluate hleft (hopl.completes hσ)
      rw [FailsFirst, examined, hl, if_neg Bool.false_ne_true]
      exact (hopr.failsFirst (hfirst _ (hopr.completes hσ))).behind (hopl.none_fails hnonel)
    · next hleft =>
      cases h
      obtain ⟨p, hp, hfirst⟩ := ihl hleft
      refine ⟨.left :: p, hopl.failsAt_cons_iff.2 hp, ?_⟩
      intro σ hσ
      exact (hopl.failsFirst (hfirst _ (hopl.completes hσ))).append _

/-- **Evaluation agrees with classical truth.** A truth value that it finds is that of the
expression under all truth values of the failing comparisons, and it fails with the error of a
comparison exactly if that is, under all of them, the first failing one to be examined. -/
theorem evaluate_settles_truth (fields : FieldSource) (e : Expr) :
    (∀ b, e.evaluate fields = .ok b → ∀ σ, e.Completes fields σ → e.truth σ = b) ∧
    ∀ x, e.evaluate fields = .error x ↔
      ∃ p, e.FailsAt fields p x ∧ ∀ σ, e.Completes fields σ → e.FailsFirst fields σ p := by
  refine ⟨fun b h σ hσ => (truth_of_evaluate h hσ).1, ?_⟩
  intro x
  refine ⟨failsFirst_of_evaluate, ?_⟩
  rintro ⟨p, hp, hfirst⟩
  obtain ⟨σ, hσ⟩ := exists_completes fields e
  cases h : e.evaluate fields with
  | ok b => exact absurd ⟨x, hp⟩ ((truth_of_evaluate h hσ).2 p (hfirst σ hσ).mem)
  | error y =>
    obtain ⟨p', hp', hfirst'⟩ := failsFirst_of_evaluate h
    cases (hfirst σ hσ).unique (hfirst' σ hσ)
    rw [hp.unique hp']

/-- A failure that no truth value of it could bring to light, and one behind operands that leave the
result open. -/
theorem evaluate_settles_hidden_and_open :
    let fields : FieldSource := fun name =>
      if name = "level" then some (.integer 3) else if name = "host" then some (.text "db1") else none
    let hidden : Expr :=
      .or (.not (.test (.eq "host" (.text "web")))) (.test (.contains "level" "3"))
    let blocked : Expr := .and (.test (.within "level" (.numbers [2, 3])))
      (.or (.test (.contains "host" "web")) (.and (.test (.eq "port" (.integer 1))) hidden))
    (hidden.evaluate fields = .ok true ∧
      ∀ σ, hidden.Completes fields σ → hidden.truth σ = true) ∧
    blocked.evaluate fields = .error (.unknownIdentifier "port") ∧
    ∃ p, blocked.FailsAt fields p (.unknownIdentifier "port") ∧
      ∀ σ, blocked.Completes fields σ → blocked.FailsFirst fields σ p := by
  intro fields hidden blocked
  have hok : hidden.evaluate fields = .ok true := rfl
  have herror : blocked.evaluate fields = .error (.unknownIdentifier "port") := rfl
  exact ⟨⟨hok, (evaluate_settles_truth fields hidden).1 true hok⟩, herror,
    ((evaluate_settles_truth fields blocked).2 _).1 herror⟩

end Expr

end Filter

end TraceViews
