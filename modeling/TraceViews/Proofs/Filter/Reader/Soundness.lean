import TraceViews.Proofs.Filter.Grammar
import TraceViews.Proofs.Filter.Reader.Steps

/-!
# What a reader has read

Each state of a reader stands for the tokens that led to it: the finished disjunctions, then for
each open parenthesis what waits in front of it, then what waits in the innermost level, then the
beginning of a comparison or an operand (`Reader.Holds`). Every step keeps this, so an expression
that is read to the end is one that the grammar gives the tokens (`stands_of_finish`).
-/

namespace TraceViews.Filter

/-! ## What waits for a partner -/

theorem Stands.negated {ts : List TokenKind} {e : Expr} (h : Stands .operand ts e) (n : Nat) :
    Stands .operand (List.replicate n (.keyword .not) ++ ts) (.negated n e) := by
  -- the innermost `not` is the one next to the operand
  induction n generalizing ts e with
  | zero => exact h
  | succ n ih =>
    obtain ⟨d, hd⟩ := h
    rw [List.replicate_succ', List.append_assoc]
    exact ih ⟨d + 1, .not hd⟩

/-- A left operand with the keyword behind it, or nothing. -/
inductive Waits (p : Phrase) (k : Keyword) : List TokenKind → Option Measured → Prop where
  | none : Waits p k [] none
  | some {ts : List TokenKind} {m : Measured} (h : Stands p ts m.expr) :
    Waits p k (ts ++ [.keyword k]) (some m)

theorem Waits.conjunction {ts us : List TokenKind} {left : Option Measured} {e : Expr}
    (h : Waits .conjunction .and ts left) (he : Stands .operand us e) :
    Stands .conjunction (ts ++ us) (.behind .and left e) := by
  obtain ⟨d, hd⟩ := he
  cases h with
  | none => exact ⟨d, .conjunct hd⟩
  | some hl =>
    obtain ⟨n, hn⟩ := hl
    rw [List.append_assoc]
    exact ⟨max n d, .and hn hd⟩

theorem Waits.disjunction {ts us : List TokenKind} {left : Option Measured} {e : Expr}
    (h : Waits .disjunction .or ts left) (he : Stands .conjunction us e) :
    Stands .disjunction (ts ++ us) (.behind .or left e) := by
  obtain ⟨d, hd⟩ := he
  cases h with
  | none => exact ⟨d, .disjunct hd⟩
  | some hl =>
    obtain ⟨n, hn⟩ := hl
    rw [List.append_assoc]
    exact ⟨max n d, .or hn hd⟩

/-- The disjunctions in front of the present one. -/
inductive Finished : List TokenKind → Option Measured → Prop where
  | none : Finished [] none
  | some {ts : List TokenKind} {m : Measured} (h : Stands .filter ts m.expr) :
    Finished ts (some m)

theorem Finished.filter {ts us : List TokenKind} {left : Option Measured} {e : Expr}
    (h : Finished ts left) (he : Stands .disjunction us e) :
    Stands .filter (ts ++ us) (.behind .and left e) := by
  obtain ⟨d, hd⟩ := he
  cases h with
  | none => exact ⟨d, .whole hd⟩
  | some hl =>
    obtain ⟨n, hn⟩ := hl
    exact ⟨max n d, .next hn hd⟩

/-- The tokens of a level: the left operands of an `or` and of an `and`, and `not`s. -/
inductive Level.Holds : List TokenKind → Level → Prop where
  | mk {ts us : List TokenKind} {d c : Option Measured} (n : Nat)
    (hd : Waits .disjunction .or ts d) (hc : Waits .conjunction .and us c) :
    Level.Holds (ts ++ us ++ List.replicate n (.keyword .not)) ⟨d, c, n⟩

theorem Level.Holds.empty : Level.Holds [] .empty := .mk 0 .none .none

theorem Level.Holds.conjunction {ts us : List TokenKind} {l : Level} {e : Expr}
    (h : l.Holds ts) (he : Stands .operand us e) :
    ∃ vs ws, ts ++ us = vs ++ ws ∧ Waits .disjunction .or vs l.disjunct ∧
      Stands .conjunction ws (l.conjunction e) := by
  obtain ⟨n, hd, hc⟩ := h
  exact ⟨_, _, by simp only [List.append_assoc], hd, hc.conjunction (he.negated n)⟩

theorem Level.Holds.disjunction {ts us : List TokenKind} {l : Level} {e : Expr}
    (h : l.Holds ts) (he : Stands .operand us e) :
    Stands .disjunction (ts ++ us) (l.disjunction e) := by
  obtain ⟨vs, ws, heq, hd, hc⟩ := h.conjunction he
  rw [heq]
  exact hd.disjunction hc

/-- The levels around the innermost one, each with the parenthesis behind it. -/
inductive OuterHolds : List TokenKind → List Level → Prop where
  | nil : OuterHolds [] []
  | cons {ts us : List TokenKind} {l : Level} {ls : List Level} (h : OuterHolds ts ls)
    (hl : l.Holds us) : OuterHolds (ts ++ us ++ [.mark .openParen]) (l :: ls)

/-! ## Beginnings of comparisons -/

theorem DerivesItems.concat_text {ts : List TokenKind} {ss : List String}
    (h : DerivesItems ts (.texts ss)) (hne : ss ≠ []) (s : String) :
    DerivesItems (ts ++ [.mark .comma, .text s]) (.texts (ss ++ [s])) := by
  cases h with
  | none => exact absurd rfl hne
  | texts a more =>
    have := DerivesItems.texts a (more ++ [s])
    rwa [List.flatMap_append] at this

theorem DerivesItems.concat_number {ts : List TokenKind} {ns : List Int64}
    (h : DerivesItems ts (.numbers ns)) (n : Int64) :
    DerivesItems (ts ++ [.mark .comma, .number n]) (.numbers (ns ++ [n])) := by
  cases h with
  | numbers a more =>
    have := DerivesItems.numbers a (more ++ [n])
    rwa [List.flatMap_append] at this

/-- The tokens of a comparison as far as they are read, or an operand that no `not` stands in front
of. -/
inductive Phase.Holds : List TokenKind → Phase → Prop where
  | operand : Phase.Holds [] .operand
  | relation (name : String) : Phase.Holds [.ident name] (.relation name)
  | literal (name : String) : Phase.Holds [.ident name, .keyword .eq] (.literal name)
  | needle (name : String) : Phase.Holds [.ident name, .keyword .contains] (.needle name)
  | list (name : String) : Phase.Holds [.ident name, .keyword .within] (.list name)
  | firstItem (name : String) :
    Phase.Holds [.ident name, .keyword .within, .mark .openBracket] (.firstItem name)
  | textItem (name : String) {ts : List TokenKind} {items : List String}
    (h : DerivesItems ts (.texts items.reverse)) (hne : items ≠ []) :
    Phase.Holds (.ident name :: .keyword .within :: .mark .openBracket :: ts ++ [.mark .comma])
      (.textItem name items)
  | numberItem (name : String) {ts : List TokenKind} {items : List Int64}
    (h : DerivesItems ts (.numbers items.reverse)) :
    Phase.Holds (.ident name :: .keyword .within :: .mark .openBracket :: ts ++ [.mark .comma])
      (.numberItem name items)
  | textEnd (name : String) {ts : List TokenKind} {items : List String}
    (h : DerivesItems ts (.texts items.reverse)) (hne : items ≠ []) :
    Phase.Holds (.ident name :: .keyword .within :: .mark .openBracket :: ts)
      (.textEnd name items)
  | numberEnd (name : String) {ts : List TokenKind} {items : List Int64}
    (h : DerivesItems ts (.numbers items.reverse)) :
    Phase.Holds (.ident name :: .keyword .within :: .mark .openBracket :: ts)
      (.numberEnd name items)
  | junction {ts : List TokenKind} {m : Measured} (h : Stands .operand ts m.expr) :
    Phase.Holds ts (.junction m)

/-- Going on with a comparison appends the token. -/
theorem Phase.Holds.goes {ts : List TokenKind} {p p' : Phase} {t : TokenKind} (hp : p.Holds ts)
    (h : p.Goes t p') : p'.Holds (ts ++ [t]) := by
  -- a whole comparison is an operand
  have compared : ∀ {us c}, DerivesComparison us c → Phase.Holds us (.junction (.test c)) :=
    fun hc => .junction ⟨0, .test hc⟩
  cases h with
  | eq name =>
    cases hp
    exact .literal name
  | contains name =>
    cases hp
    exact .needle name
  | within name =>
    cases hp
    exact .list name
  | eqText name s =>
    cases hp
    exact compared (.eqText name s)
  | eqNumber name n =>
    cases hp
    exact compared (.eqNumber name n)
  | needle name s =>
    cases hp
    exact compared (.contains name s)
  | list name =>
    cases hp
    exact .firstItem name
  | noItem name =>
    cases hp
    exact compared (.within name .none)
  | firstText name s =>
    cases hp
    exact .textEnd name (.texts s []) (by simp)
  | firstNumber name n =>
    cases hp
    exact .numberEnd name (.numbers n [])
  | nextText name items s =>
    cases hp with
    | textItem _ hi hne =>
      have hi' := hi.concat_text (by simpa using hne) s
      rw [← List.reverse_cons] at hi'
      simpa using Phase.Holds.textEnd name hi' (by simp)
  | nextNumber name items n =>
    cases hp with
    | numberItem _ hi =>
      have hi' := hi.concat_number n
      rw [← List.reverse_cons] at hi'
      simpa using Phase.Holds.numberEnd name hi'
  | textComma name items =>
    cases hp with
    | textEnd _ hi hne => exact .textItem name hi hne
  | numberComma name items =>
    cases hp with
    | numberEnd _ hi => exact .numberItem name hi
  | texts name items =>
    cases hp with
    | textEnd _ hi hne => exact compared (.within name hi)
  | numbers name items =>
    cases hp with
    | numberEnd _ hi => exact compared (.within name hi)

/-! ## States -/

namespace Reader

/-- The tokens that a state stands for. -/
inductive Holds : List TokenKind → Reader → Prop where
  | mk {fs os ls ps : List TokenKind} {f : Option Measured} {l : Level} {o : List Level}
    {p : Phase} (hf : Finished fs f) (ho : OuterHolds os o) (hl : l.Holds ls)
    (hp : p.Holds ps) : Holds (fs ++ os ++ ls ++ ps) ⟨f, l, o, p⟩

theorem holds_start : Holds [] start := .mk .none .nil .empty .operand

theorem holds_of_stepOperand {limit : Nat} {fs os ls : List TokenKind} {r r' : Reader}
    (hf : Finished fs r.finished) (ho : OuterHolds os r.outer) (hl : r.level.Holds ls)
    (hp : r.phase = .operand) {t : TokenKind} (h : r.stepOperand limit t = .ok r') :
    Holds (fs ++ os ++ ls ++ [t]) r' := by
  obtain ⟨f, l, o, p⟩ := r
  cases hp
  rw [stepOperand.eq_def] at h
  split at h
  · cases h
    exact .mk hf ho hl (.relation _)
  · -- one more `not` waits in the level
    rw [enter] at h
    split at h
    · cases h
      obtain ⟨n, hd, hc⟩ := hl
      have := Holds.mk hf ho (.mk (n + 1) hd hc) .operand
      rw [List.replicate_succ'] at this
      simpa only [List.append_assoc, List.append_nil] using this
    · cases h
  · -- the level goes outside, and an empty one is inside
    rw [enter] at h
    split at h
    · cases h
      have := Holds.mk hf (ho.cons hl) .empty .operand
      simpa only [List.append_assoc, List.append_nil] using this
    · cases h
  · cases h

theorem holds_of_stepJunction {limit : Nat} {fs os ls ps : List TokenKind} {r r' : Reader}
    {m : Measured} (hf : Finished fs r.finished) (ho : OuterHolds os r.outer)
    (hl : r.level.Holds ls) (hm : Stands .operand ps m.expr) {t : TokenKind}
    (h : r.stepJunction limit m t = .ok r') : Holds (fs ++ os ++ (ls ++ ps) ++ [t]) r' := by
  obtain ⟨f, l, o, p⟩ := r
  rcases stepJunction_cases h with ⟨rfl, c, hc, rfl⟩ | ⟨rfl, d, hd, rfl⟩
    | ⟨rfl, l', ls', d, ho', hd, rfl⟩ | ⟨ho', w, hw, hs⟩
  · -- the conjunction waits for an operand
    obtain ⟨vs, ws, heq, hvs, hws⟩ := hl.conjunction hm
    rw [← expr_of_conjunction hc] at hws
    rw [heq]
    simpa using Holds.mk hf ho (.mk 0 hvs (.some hws)) .operand
  · -- the disjunction waits for a conjunction
    have hdis := hl.disjunction hm
    rw [← expr_of_disjunction hd] at hdis
    simpa using Holds.mk hf ho (.mk 0 (.some hdis) .none) .operand
  · -- the disjunction is an operand of the level around it
    obtain ⟨n, hdis⟩ := hl.disjunction hm
    rw [← expr_of_disjunction hd] at hdis
    cases ho'
    cases ho with
    | cons ho hl' => simpa using Holds.mk hf ho hl' (.junction ⟨n + 1, .group hdis⟩)
  · -- the disjunction is finished, and the token begins the next one
    have hwhole := hf.filter (hl.disjunction hm)
    rw [← expr_of_whole hw] at hwhole
    cases ho'
    cases ho
    simpa using holds_of_stepOperand (.some hwhole) .nil .empty rfl hs

/-- **One step** appends its token to those that the state stands for. -/
theorem Holds.step {limit : Nat} {ts : List TokenKind} {r r' : Reader} {t : TokenKind}
    (hr : Holds ts r) (h : r.step limit t = .ok r') : Holds (ts ++ [t]) r' := by
  obtain @⟨fs, os, ls, ps, f, l, o, p, hf, ho, hl, hp⟩ := hr
  rcases step_cases h with ⟨p, hg, rfl⟩ | ⟨hq, h⟩ | ⟨m, hq, h⟩
  · rw [List.append_assoc _ ps]
    exact .mk hf ho hl (hp.goes hg)
  · cases hq
    cases hp
    rw [List.append_nil]
    exact holds_of_stepOperand hf ho hl rfl h
  · cases hq
    cases hp with
    | junction hm =>
      rw [List.append_assoc _ ls ps]
      exact holds_of_stepJunction hf ho hl hm h

/-- **A run** appends its tokens. -/
theorem Holds.feed {limit : Nat} {ts us : List TokenKind} {r r' : Reader} (hr : Holds ts r)
    (h : r.feed limit us = .ok r') : Holds (ts ++ us) r' := by
  induction us generalizing ts r with
  | nil =>
    cases h
    rwa [List.append_nil]
  | cons t us ih =>
    rw [feed_cons] at h
    obtain ⟨r₁, h₁, h⟩ := exists_of_bind_eq_ok h
    rw [List.append_cons]
    exact ih (hr.step h₁) h

theorem Holds.finish {limit : Nat} {ts : List TokenKind} {r : Reader} {w : Measured}
    (hr : Holds ts r) (h : r.finish limit = .ok w) : Stands .filter ts w.expr := by
  obtain ⟨m, hp, ho', hw⟩ := finish_cases h
  obtain ⟨hf, ho, hl, hq⟩ := hr
  -- no parenthesis is open, so only the finished part and the innermost level are left
  cases hp
  cases ho'
  cases ho
  cases hq with
  | junction hm =>
    rw [expr_of_whole hw, List.append_nil, List.append_assoc]
    exact hf.filter (hl.disjunction hm)

/-- What is read to the end is a filter of the grammar. -/
theorem stands_of_finish {limit : Nat} {ts : List TokenKind} {r : Reader} {w : Measured}
    (h : start.feed limit ts = .ok r) (hw : r.finish limit = .ok w) :
    Stands .filter ts w.expr :=
  (holds_start.feed h).finish hw

end Reader

end TraceViews.Filter
