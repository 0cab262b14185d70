import TraceViews.Proofs.Filter.Binding

/-!
# Membership as equality

A membership test has a rule for each kind of list and of value, and so have the equality tests that
stand for it. Both come down to a look-up of the field and a question to its value
(`evaluate_within`, `evaluate_equalsAny`). Main statement: a membership test is evaluated and bound
as the disjunction of the equality tests with the items of its list (`within_agrees_with_eq`).
-/

namespace TraceViews.Filter

/-- An item of the list equals the value: one of its kind, for the kinds of all items are the
same. -/
theorem Comparison.holdsAt_within (name : String) (items : Items) (value : Value) :
    (within name items).holdsAt value = .ok (items.values.contains value) := by
  cases value with
  | text s =>
    cases items with
    | texts items => simp [holdsAt, Items.values]
    | numbers items => simp [holdsAt, Items.values]
  | integer n =>
    cases items with
    | texts items => simp [holdsAt, Items.values]
    | numbers items => simp [holdsAt, Items.values]

/-- A comparison that can be made with every kind is refused only where its field is not there. -/
theorem Comparison.bind_of_every_kind {c : Comparison} (h : ∀ kind, c.bindAt kind = .ok ())
    (schema : FieldSchema) :
    c.bind schema
      = match schema c.name with
        | none => .error (.unknownIdentifier c.name)
        | some _ => .ok () := by
  rw [bind]
  cases schema c.name with
  | none => rfl
  | some kind => exact h kind

namespace Expr

variable {name : String} {fields : FieldSource} {schema : FieldSchema} {e : Expr}
  {first : Value}

/-- The disjunction of an expression with the equality tests of a field with each of some values,
grouped from the left. -/
def orEquals (name : String) (e : Expr) (values : List Value) : Expr :=
  values.foldl (fun e value => .or e (.test (.eq name value))) e

/-- The disjunction of the equality tests of a field with each of some values, grouped from the
left. -/
def equalsAny (name : String) (first : Value) (rest : List Value) : Expr :=
  orEquals name (.test (.eq name first)) rest

/-! ## Evaluation -/

/-- What is not there is no member, and what is there is asked for among the items. -/
theorem evaluate_within (name : String) (items : Items) (fields : FieldSource) :
    (test (.within name items)).evaluate fields
      = match fields name with
        | none => .error (.unknownIdentifier name)
        | some value => .ok (items.values.contains value) := by
  rw [evaluate, Comparison.evaluate, Comparison.name]
  cases fields name with
  | none => rfl
  | some value => exact Comparison.holdsAt_within name items value

/-- An operand that fails hides all operands to its right. -/
theorem evaluate_orEquals_error {x : EvalError} (h : e.evaluate fields = .error x)
    (values : List Value) : (orEquals name e values).evaluate fields = .error x := by
  induction values generalizing e with
  | nil => exact h
  | cons value values ih =>
    refine ih ?_
    simp only [evaluate, h]

/-- Where the field has a value, no operand fails, and one of them has to be true. -/
theorem evaluate_orEquals_ok {value : Value} (hvalue : fields name = some value) {b : Bool}
    (h : e.evaluate fields = .ok b) (values : List Value) :
    (orEquals name e values).evaluate fields = .ok (b || values.contains value) := by
  induction values generalizing e b with
  | nil => simpa [orEquals] using h
  | cons first values ih =>
    have hfirst : (or e (test (.eq name first))).evaluate fields = .ok (b || value == first) := by
      cases b with
      | false =>
        simp [evaluate, h, Comparison.evaluate, Comparison.name, Comparison.holdsAt, hvalue]
      | true => simp [evaluate, h]
    rw [List.contains_cons, ← Bool.or_assoc]
    exact ih hfirst

theorem evaluate_equalsAny (name : String) (first : Value) (rest : List Value)
    (fields : FieldSource) :
    (equalsAny name first rest).evaluate fields
      = match fields name with
        | none => .error (.unknownIdentifier name)
        | some value => .ok ((first :: rest).contains value) := by
  cases hvalue : fields name with
  | none =>
    refine evaluate_orEquals_error ?_ rest
    simp [evaluate, Comparison.evaluate, Comparison.name, hvalue]
  | some value =>
    have hfirst : (test (.eq name first)).evaluate fields = .ok (value == first) := by
      simp [evaluate, Comparison.evaluate, Comparison.name, Comparison.holdsAt, hvalue]
    simp only [List.contains_cons]
    exact evaluate_orEquals_ok hvalue hfirst rest

/-! ## Binding -/

/-- An operand to the right is refused only where the ones before it are. -/
theorem bind_orEquals (h : e.bind schema = (test (.eq name first)).bind schema)
    (values : List Value) :
    (orEquals name e values).bind schema = (test (.eq name first)).bind schema := by
  induction values generalizing e with
  | nil => exact h
  | cons value values ih =>
    refine ih ?_
    rw [bind_or, h]
    simp only [bind, Comparison.bind, Comparison.name]
    cases schema name with
    | none => rfl
    | some kind => rfl

theorem bind_equalsAny (name : String) (first : Value) (rest : List Value)
    (schema : FieldSchema) :
    (equalsAny name first rest).bind schema
      = match schema name with
        | none => .error (.unknownIdentifier name)
        | some _ => .ok () :=
  (bind_orEquals rfl rest).trans
    (Comparison.bind_of_every_kind (c := .eq name first) (fun _ => rfl) schema)

/-- **Membership agrees with equality.** A membership test gives on every source what the
disjunction of the equality tests with its items gives, be it a truth value or an error, and it is
bound or refused as that disjunction is. Where the list is empty, it is false if the field is there
and fails otherwise. -/
theorem within_agrees_with_eq (name : String) (items : Items) :
    (∀ first rest, items.values = first :: rest →
      (∀ fields, (test (.within name items)).evaluate fields
        = (equalsAny name first rest).evaluate fields) ∧
      ∀ schema, (test (.within name items)).bind schema
        = (equalsAny name first rest).bind schema) ∧
    (items.values = [] →
      (∀ fields, (test (.within name items)).evaluate fields
        = match fields name with
          | none => .error (.unknownIdentifier name)
          | some _ => .ok false) ∧
      ∀ schema, (test (.within name items)).bind schema
        = match schema name with
          | none => .error (.unknownIdentifier name)
          | some _ => .ok ()) := by
  have hbind := Comparison.bind_of_every_kind (c := .within name items) fun _ => rfl
  constructor
  · intro first rest h
    refine ⟨?_, ?_⟩
    · intro fields
      rw [evaluate_within, evaluate_equalsAny, h]
    · intro schema
      rw [bind_equalsAny]
      exact hbind schema
  · intro h
    refine ⟨?_, hbind⟩
    intro fields
    rw [evaluate_within, h]
    rfl

/-- A list of strings against a source where the field is an integer and against one where it is not
there, and an empty list. -/
theorem within_agrees_with_eq_of_other_kind :
    let items : Items := .texts ["2", "3", "5"]
    let tests : Expr :=
      .or (.or (.test (.eq "level" (.text "2"))) (.test (.eq "level" (.text "3"))))
        (.test (.eq "level" (.text "5")))
    let fields : FieldSource := fun name => if name = "level" then some (.integer 3) else none
    (test (.within "level" items)).evaluate fields = tests.evaluate fields ∧
      tests.evaluate fields = .ok false ∧
      (test (.within "level" items)).evaluate (fun _ => none)
        = tests.evaluate (fun _ => none) ∧
      tests.evaluate (fun _ => none) = .error (.unknownIdentifier "level") ∧
      (test (.within "level" items)).bind fieldKind? = tests.bind fieldKind? ∧
      (test (.within "level" (.numbers []))).evaluate fields = .ok false := by
  intro items tests fields
  obtain ⟨hevaluate, hbind⟩ := (within_agrees_with_eq "level" items).1 (.text "2") _ rfl
  exact ⟨hevaluate fields, rfl, hevaluate _, rfl, hbind fieldKind?,
    ((within_agrees_with_eq "level" (.numbers [])).2 rfl).1 fields⟩

end Expr

end TraceViews.Filter
