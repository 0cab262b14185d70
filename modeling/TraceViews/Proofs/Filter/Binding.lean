import TraceViews.Proofs.Except
import TraceViews.Proofs.View.Rows

/-!
# Binding filters

Binding walks over all comparisons of an expression, and evaluation over those that it needs. A
comparison fails for the kind of its field alone (`Comparison.Fails`), so what evaluation may meet
on some record has been seen by binding. Main statement: an expression that is bound to the fields
of records has a truth value on each of them, and a view leaves out only records on which its
filter is false (`bind_settles_evaluate`).
-/

namespace TraceViews.Filter

/-- The kinds of the values that a source finds. -/
def kindsOf (fields : FieldSource) : FieldSchema := fun name => (fields name).map Value.kind

theorem kindsOf_lookup (r : Record) : kindsOf r.lookup = fieldKind? :=
  funext fun name => r.kind_of_lookup name

/-! ## Single comparisons -/

namespace Comparison

/-- What makes a comparison fail, with its error: its field is not there, or it looks for a string
in an integer. -/
inductive Fails (schema : FieldSchema) : Comparison → EvalError → Prop where
  | unknown {c : Comparison} (h : schema c.name = none) :
    Fails schema c (.unknownIdentifier c.name)
  | mismatch {name needle : String} (h : schema name = some .integer) :
    Fails schema (.contains name needle) (.typeMismatch name .text .integer)

variable {schema : FieldSchema} {fields : FieldSource} {c : Comparison} {x : EvalError}

/-- What fails for its kind fails at the values of that kind. -/
theorem holdsAt_eq_error_iff (value : Value) :
    c.holdsAt value = .error x ↔ c.bindAt value.kind = .error x := by
  cases c with
  | eq name literal => simp [holdsAt, bindAt]
  | contains name needle => cases value <;> simp [holdsAt, bindAt, Value.kind]
  | within name items => cases value <;> cases items <;> simp [holdsAt, bindAt]

theorem bindAt_eq_error_iff {kind : Kind} (h : schema c.name = some kind) :
    c.bindAt kind = .error x ↔ c.Fails schema x := by
  constructor
  · intro hx
    cases c with
    | contains name needle =>
      cases kind with
      | text => cases hx
      | integer =>
        cases hx
        exact .mismatch h
    | _ => cases hx
  · intro hx
    cases hx with
    | unknown hnone =>
      rw [h] at hnone
      cases hnone
    | mismatch hinteger =>
      cases h.symm.trans hinteger
      rfl

theorem bind_eq_error_iff : c.bind schema = .error x ↔ c.Fails schema x := by
  rw [bind]
  cases h : schema c.name with
  | none =>
    constructor
    · intro hx
      cases hx
      exact .unknown h
    · intro hx
      cases hx with
      | unknown => rfl
      | mismatch hinteger => cases h.symm.trans hinteger
  | some kind => exact bindAt_eq_error_iff h

theorem bind_eq_ok_iff : c.bind schema = .ok () ↔ ∀ x, ¬ c.Fails schema x := by
  simp only [← bind_eq_error_iff]
  cases c.bind schema with
  | ok => simp
  | error e => simp

/-- On a source a comparison fails as it does against the kinds of the values there. -/
theorem evaluate_eq_error_iff :
    c.evaluate fields = .error x ↔ c.Fails (kindsOf fields) x := by
  rw [← bind_eq_error_iff, evaluate, bind, kindsOf]
  cases fields c.name with
  | none => simp
  | some value => exact holdsAt_eq_error_iff value

end Comparison

/-! ## Expressions -/

namespace Expr

variable {schema : FieldSchema} {fields : FieldSource} {e : Expr} {x : EvalError}

/-- The error of the comparison furthest to the left of those that fail. -/
def FirstFails (schema : FieldSchema) (e : Expr) (x : EvalError) : Prop :=
  ∃ before c after, e.comparisons = before ++ c :: after ∧
    (∀ b ∈ before, ∀ y, ¬ b.Fails schema y) ∧ c.Fails schema x

theorem bind_and (left right : Expr) :
    (and left right).bind schema = left.bind schema >>= fun _ => right.bind schema := by
  rw [Expr.bind]
  cases left.bind schema <;> rfl

theorem bind_or (left right : Expr) :
    (or left right).bind schema = left.bind schema >>= fun _ => right.bind schema := by
  rw [Expr.bind]
  cases left.bind schema <;> rfl

/-- Binding looks at one comparison after the other. -/
theorem bind_eq_forM (e : Expr) :
    e.bind schema = forM e.comparisons (Comparison.bind schema) := by
  induction e with
  | test c =>
    rw [comparisons, List.forM_cons, List.forM_nil]
    exact (bind_pure_unit).symm
  | not operand ih => exact ih
  | and left right ihl ihr => rw [comparisons, List.forM_append, ← ihl, ← ihr, bind_and]
  | or left right ihl ihr => rw [comparisons, List.forM_append, ← ihl, ← ihr, bind_or]

theorem bind_eq_error_iff : e.bind schema = .error x ↔ e.FirstFails schema x := by
  rw [bind_eq_forM, forM_eq_error_iff, FirstFails]
  simp only [Comparison.bind_eq_ok_iff, Comparison.bind_eq_error_iff]

theorem bind_eq_ok_iff :
    e.bind schema = .ok () ↔ ∀ c ∈ e.comparisons, ∀ x, ¬ c.Fails schema x := by
  rw [bind_eq_forM, forM_eq_ok_iff]
  simp only [Comparison.bind_eq_ok_iff]

/-- Evaluation fails with the error of a comparison. -/
theorem fails_of_evaluate (h : e.evaluate fields = .error x) :
    ∃ c ∈ e.comparisons, c.Fails (kindsOf fields) x := by
  induction e with
  | test c => exact ⟨c, List.mem_singleton_self c, Comparison.evaluate_eq_error_iff.1 h⟩
  | not operand ih =>
    rw [evaluate] at h
    split at h
    · cases h
    · next hoperand =>
      cases h
      exact ih hoperand
  | and left right ihl ihr =>
    simp only [comparisons, List.mem_append, or_and_right, exists_or]
    rw [evaluate] at h
    split at h
    · exact .inr (ihr h)
    · cases h
    · next hleft =>
      cases h
      exact .inl (ihl hleft)
  | or left right ihl ihr =>
    simp only [comparisons, List.mem_append, or_and_right, exists_or]
    rw [evaluate] at h
    split at h
    · cases h
    · exact .inr (ihr h)
    · next hleft =>
      cases h
      exact .inl (ihl hleft)

/-- What is bound to the kinds of a source has a truth value there. -/
theorem exists_evaluate_eq_ok (h : e.bind (kindsOf fields) = .ok ()) :
    ∃ b, e.evaluate fields = .ok b := by
  cases hx : e.evaluate fields with
  | ok b => exact ⟨b, rfl⟩
  | error x =>
    obtain ⟨c, hc, hfails⟩ := fails_of_evaluate hx
    exact absurd hfails (bind_eq_ok_iff.1 h c hc x)

/-- An error that evaluation gives has been seen by binding. -/
theorem exists_bind_eq_error (h : e.evaluate fields = .error x) :
    ∃ y, e.bind (kindsOf fields) = .error y := by
  cases hbind : e.bind (kindsOf fields) with
  | error y => exact ⟨y, rfl⟩
  | ok u =>
    obtain ⟨b, hb⟩ := exists_evaluate_eq_ok hbind
    cases h.symm.trans hb

end Expr

end TraceViews.Filter

namespace TraceViews

open TraceViews.Filter

/-! ## Filters on records -/

namespace RecordFilter

variable {source : String} {f : RecordFilter} {r : Record}

theorem bind_of_compile (h : compile source = .ok f) : f.expr.bind fieldKind? = .ok () := by
  rw [compile] at h
  split at h
  · cases h
  · split at h
    · cases h
    · next hbind =>
      cases h
      exact hbind

theorem exists_accepts_eq_ok (h : compile source = .ok f) (r : Record) :
    ∃ b, f.accepts r = .ok b := by
  have hbind := bind_of_compile h
  rw [← kindsOf_lookup r] at hbind
  exact Expr.exists_evaluate_eq_ok hbind

theorem check_eq_ok (h : compile source = .ok f) (r : Record) : f.check r = .ok () := by
  obtain ⟨b, hb⟩ := exists_accepts_eq_ok h r
  rw [check, hb]

theorem passes_eq_false_iff (h : compile source = .ok f) (r : Record) :
    passes (some f) r = false ↔ f.accepts r = .ok false := by
  obtain ⟨b, hb⟩ := exists_accepts_eq_ok h r
  simp only [passes, hb, Except.ok.injEq]

end RecordFilter

/-- A view leaves out the records that its filter does not pass. -/
theorem View.Valid.not_mem_rows_iff {v : View} {s : Store} (h : v.Valid s) {index : Nat}
    {r : Record} (hr : s.records[index]? = some r) :
    index ∉ (v.current s).rows.toList.map Row.index ↔ passes v.filter r = false := by
  rw [h.rows_current, index_selectRows, mem_shownAt, hr]
  simp

/-- **Binding settles evaluation.** Binding fails with the error of the comparison furthest to the
left that fails on records, and where there is none every record has a truth value. So a filter
that was compiled never fails, and what a view with that filter leaves out is false. -/
theorem bind_settles_evaluate :
    (∀ (e : Expr) (x : EvalError),
      e.bind fieldKind? = .error x ↔ e.FirstFails fieldKind? x) ∧
    (∀ (e : Expr) (r : Record),
      e.bind fieldKind? = .ok () → ∃ b, e.evaluate r.lookup = .ok b) ∧
    (∀ (e : Expr) (r : Record) (y : EvalError), e.evaluate r.lookup = .error y →
      (∃ c ∈ e.comparisons, c.Fails fieldKind? y) ∧ ∃ x, e.bind fieldKind? = .error x) ∧
    ∀ (source : String) (f : RecordFilter), RecordFilter.compile source = .ok f →
      (∀ r, f.check r = .ok () ∧ ∃ b, f.accepts r = .ok b) ∧
      ∀ (ops : List Operation) (n : Nat) (v : View),
        let w := Workspace.initial.run ops
        w.view? n = some v → v.filter = some f →
          ∀ (index : Nat) (r : Record), w.store.records[index]? = some r →
            (index ∉ (v.current w.store).rows.toList.map Row.index ↔ f.accepts r = .ok false) := by
  refine ⟨fun e x => Expr.bind_eq_error_iff, ?_, ?_, ?_⟩
  · intro e r h
    rw [← kindsOf_lookup r] at h
    exact Expr.exists_evaluate_eq_ok h
  · intro e r y h
    rw [← kindsOf_lookup r]
    exact ⟨Expr.fails_of_evaluate h, Expr.exists_bind_eq_error h⟩
  · intro source f h
    refine ⟨fun r => ⟨RecordFilter.check_eq_ok h r, RecordFilter.exists_accepts_eq_ok h r⟩, ?_⟩
    intro ops n v w hv hfilter index r hr
    rw [(Workspace.valid_of_run hv).not_mem_rows_iff hr, hfilter]
    exact RecordFilter.passes_eq_false_iff h r

/-- A failure that evaluation meets on one of two records only, and a filter that has none. -/
theorem bind_settles_hidden_failure :
    let hidden : Expr :=
      .or (.test (.eq "module" (.text "net"))) (.test (.contains "timestamp" "1"))
    let sound : Expr := .not (.test (.contains "message" "up"))
    let net : Record := ⟨"2", "net", 1, "up"⟩
    let disk : Record := ⟨"3", "disk", 2, "down"⟩
    let f : RecordFilter := ⟨"not message contains \"up\"", sound⟩
    let w := Workspace.initial.run
      [.openView, .enqueue net, .enqueue disk, .drain, .view 0 (.setFilter (some f))]
    hidden.evaluate net.lookup = .ok true ∧
      hidden.evaluate disk.lookup = .error (.typeMismatch "timestamp" .text .integer) ∧
      (∃ x, hidden.bind fieldKind? = .error x) ∧
      sound.bind fieldKind? = .ok () ∧ (∃ b, sound.evaluate disk.lookup = .ok b) ∧
      RecordFilter.compile f.source = .ok f ∧ f.check net = .ok () ∧
      ∃ v, w.view? 0 = some v ∧ v.filter = some f ∧
        (0 ∉ (v.current w.store).rows.toList.map Row.index ↔ f.accepts net = .ok false) := by
  intro hidden sound net disk f w
  obtain ⟨-, hok, herror, hcompiled⟩ := bind_settles_evaluate
  have hcompile : RecordFilter.compile f.source = .ok f :=
    eq_ok_of_toOption (by decide +kernel)
  have hfails : hidden.evaluate disk.lookup = .error (.typeMismatch "timestamp" .text .integer) :=
    rfl
  obtain ⟨hanswers, hviews⟩ := hcompiled f.source f hcompile
  exact ⟨rfl, hfails, (herror hidden disk _ hfails).2, rfl, hok sound disk rfl, hcompile,
    (hanswers net).1, _, rfl, rfl, hviews _ 0 _ rfl rfl 0 net rfl⟩

end TraceViews
