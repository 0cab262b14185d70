import TraceViews.Proofs.Filter.Grammar
import TraceViews.Proofs.Filter.Reader.Steps

/-!
# Reading phrases of the grammar

A reader that stands where a phrase may begin, and is given one, either comes to stand behind it or
finds it too deep, and then it is too deep (`Reader.Feeds`). There is one lemma for each rule of
the grammar; together they give `feeds_of_derives`.
-/

namespace TraceViews.Filter

namespace Reader

/-! ## Before and behind a phrase -/

/-- Where a phrase may begin. -/
def Ready : Phrase → Reader → Prop
  | .operand, r => r.phase = .operand
  | .conjunction, r => r.phase = .operand ∧ r.level.conjunct = none ∧ r.level.negations = 0
  | .disjunction, r => r.phase = .operand ∧ r.level = .empty
  | .filter, r => r = start

/-- What a reader becomes that passes a phrase for an expression. Not everything in the phrase is
joined yet; the expression is what the joins will give. -/
inductive Passed (limit : Nat) : Phrase → Reader → Expr → Reader → Prop where
  | operand (r : Reader) (k : Nat) {m : Measured} (hm : m.height ≤ limit) :
    Passed limit .operand r (.negated k m.expr)
      { r with level.negations := r.level.negations + k, phase := .junction m }
  | conjunction (r : Reader) (c : Option Measured) (k : Nat) {m : Measured}
    (hm : m.height ≤ limit) :
    Passed limit .conjunction r (.behind .and c (.negated k m.expr))
      { r with level := ⟨r.level.disjunct, c, k⟩, phase := .junction m }
  | disjunction (r : Reader) (l : Level) {m : Measured} (hm : m.height ≤ limit) :
    Passed limit .disjunction r (l.disjunction m.expr) { r with level := l, phase := .junction m }
  | filter (f : Option Measured) (l : Level) {m : Measured} (hm : m.height ≤ limit) :
    Passed limit .filter start (.behind .and f (l.disjunction m.expr)) ⟨f, l, [], .junction m⟩

/-- A reader passes a phrase that is not too deep in its place, or refuses one that is. -/
def Feeds (limit : Nat) (p : Phrase) (r : Reader) (ts : List TokenKind) (e : Expr) (n : Nat) :
    Prop :=
  (∃ r', r.feed limit ts = .ok r' ∧ Passed limit p r e r' ∧ r.nesting + n ≤ limit) ∨
    (r.feed limit ts = .error (.tooDeep limit) ∧
      (limit < r.nesting + n ∨ limit < e.height))

/-- The innermost level counts with its `not`s, each one around it with its parenthesis too. -/
theorem nesting_eq (f : Option Measured) (l : Level) (o : List Level) (p : Phase) :
    nesting ⟨f, l, o, p⟩
      = l.negations + o.foldr (fun level n => level.negations + 1 + n) 0 := by
  rw [nesting]
  induction o with
  | nil => rfl
  | cons l' o ih =>
    rw [List.foldr_cons, List.foldr_cons, ih]
    omega

theorem nesting_not (f : Option Measured) (l : Level) (o : List Level) (p : Phase) :
    nesting ⟨f, { l with negations := l.negations + 1 }, o, p⟩ = nesting ⟨f, l, o, p⟩ + 1 := by
  rw [nesting_eq, nesting_eq]
  exact Nat.add_right_comm ..

theorem nesting_group (f : Option Measured) (l : Level) (o : List Level) (p : Phase) :
    nesting ⟨f, .empty, l :: o, p⟩ = nesting ⟨f, l, o, p⟩ + 1 := by
  rw [nesting_eq, nesting_eq, List.foldr_cons, Nat.add_right_comm]
  exact Nat.zero_add _

variable {limit : Nat} {r : Reader} {ts us : List TokenKind} {e f : Expr} {n m : Nat}

/-! ## Comparisons -/

theorem feed_texts (name : String) (items more : List String) :
    feed limit { r with phase := .textEnd name items }
        ((more.flatMap fun s => [.mark .comma, .text s]) ++ [.mark .closeBracket])
      = .ok { r with
          phase := .junction (.test (.within name (.texts (items.reverse ++ more)))) } := by
  induction more generalizing items with
  | nil =>
    rw [List.append_nil]
    rfl
  | cons s more ih =>
    have := ih (s :: items)
    rw [List.reverse_cons, List.append_assoc] at this
    exact this

theorem feed_numbers (name : String) (items more : List Int64) :
    feed limit { r with phase := .numberEnd name items }
        ((more.flatMap fun n => [.mark .comma, .number n]) ++ [.mark .closeBracket])
      = .ok { r with
          phase := .junction (.test (.within name (.numbers (items.reverse ++ more)))) } := by
  induction more generalizing items with
  | nil =>
    rw [List.append_nil]
    rfl
  | cons n more ih =>
    have := ih (n :: items)
    rw [List.reverse_cons, List.append_assoc] at this
    exact this

theorem feed_comparison {c : Comparison} (h : DerivesComparison ts c) (hp : r.phase = .operand) :
    r.feed limit ts = .ok { r with phase := .junction (.test c) } := by
  obtain ⟨f, l, o, p⟩ := r
  cases hp
  cases h with
  | eqText name s => rfl
  | eqNumber name n => rfl
  | contains name needle => rfl
  | within name hi =>
    cases hi with
    | none => rfl
    | texts s more => exact feed_texts (r := ⟨f, l, o, .operand⟩) name [s] more
    | numbers n more => exact feed_numbers (r := ⟨f, l, o, .operand⟩) name [n] more

/-! ## Operands -/

theorem feeds_test {c : Comparison} (h : DerivesComparison ts c) (hl : 0 < limit)
    (hr : r.Ready .operand) (hn : r.nesting ≤ limit) :
    r.Feeds limit .operand ts (.test c) 0 := by
  refine .inl ⟨_, feed_comparison h hr, ?_, hn⟩
  exact .operand r 0 (m := .test c) hl

/-- Entering a `not` or a parenthesis takes one more level, or fails. -/
theorem enter_cases {opened : Reader} :
    (r.nesting < limit ∧ r.enter limit opened = .ok opened) ∨
      (limit ≤ r.nesting ∧ r.enter limit opened = .error (.tooDeep limit)) := by
  rw [enter]
  rcases Nat.lt_or_ge r.nesting limit with h | h
  · exact .inl ⟨h, if_pos h⟩
  · exact .inr ⟨h, if_neg (by omega)⟩

theorem feeds_not (hr : r.Ready .operand)
    (ih : ∀ r : Reader, r.Ready .operand → r.nesting ≤ limit → r.Feeds limit .operand ts e n) :
    r.Feeds limit .operand (.keyword .not :: ts) (.not e) (n + 1) := by
  obtain ⟨f, l, o, p⟩ := r
  cases hr
  -- the operand is read with one more `not` in the level
  have hnest := nesting_not f l o .operand
  have hfeed : feed limit ⟨f, l, o, .operand⟩ (.keyword .not :: ts)
      = enter limit ⟨f, l, o, .operand⟩
          ⟨f, { l with negations := l.negations + 1 }, o, .operand⟩
        >>= fun r => feed limit r ts :=
    feed_cons ..
  rcases enter_cases (r := ⟨f, l, o, .operand⟩) with ⟨hlt, hin⟩ | ⟨hle, hin⟩
  · rw [hin] at hfeed
    rcases ih ⟨f, { l with negations := l.negations + 1 }, o, .operand⟩ rfl (by omega) with
      ⟨r', hr', hpass, hn⟩ | ⟨herr, hdeep⟩
    · refine .inl ⟨r', hfeed.trans hr', ?_, by omega⟩
      cases hpass with
      | operand _ k hm =>
        have := Passed.operand ⟨f, l, o, .operand⟩ (k + 1) hm
        rw [Expr.negated_succ, Nat.add_comm k 1, ← Nat.add_assoc] at this
        exact this
    · refine .inr ⟨hfeed.trans herr, ?_⟩
      rw [Expr.height]
      omega
  · rw [hin] at hfeed
    exact .inr ⟨hfeed, by omega⟩

theorem feeds_group (hr : r.Ready .operand)
    (ih : ∀ r : Reader, r.Ready .disjunction → r.nesting ≤ limit →
      r.Feeds limit .disjunction ts e n) :
    r.Feeds limit .operand (.mark .openParen :: ts ++ [.mark .closeParen]) e (n + 1) := by
  obtain ⟨f, l, o, p⟩ := r
  cases hr
  -- what is inside the parentheses is read in an empty level
  have hnest := nesting_group f l o .operand
  have hfeed : feed limit ⟨f, l, o, .operand⟩ (.mark .openParen :: ts ++ [.mark .closeParen])
      = enter limit ⟨f, l, o, .operand⟩ ⟨f, .empty, l :: o, .operand⟩
        >>= fun r => feed limit r (ts ++ [.mark .closeParen]) :=
    feed_cons ..
  rcases enter_cases (r := ⟨f, l, o, .operand⟩) with ⟨hlt, hin⟩ | ⟨hle, hin⟩
  · rw [hin] at hfeed
    replace hfeed := hfeed.trans (feed_append limit _ ts [.mark .closeParen])
    rcases ih ⟨f, .empty, l :: o, .operand⟩ ⟨rfl, rfl⟩ (by omega) with
      ⟨r', hr', hpass, hn⟩ | ⟨herr, hdeep⟩
    · rw [hr'] at hfeed
      cases hpass with
      | disjunction _ l' hm =>
        -- the closing parenthesis makes an operand of it, unless it is too high
        replace hfeed := hfeed.trans (feed_singleton ..)
        rw [step_close rfl rfl, disjunction_eq_capped hm] at hfeed
        rcases Measured.capped_cases limit (l'.disjunction _) with ⟨d, he, hd, hc⟩ | ⟨hd, hc⟩
        · rw [hc] at hfeed
          refine .inl ⟨_, hfeed, ?_, by omega⟩
          rw [← he]
          exact .operand ⟨f, l, o, .operand⟩ 0 hd
        · rw [hc] at hfeed
          exact .inr ⟨hfeed, .inr hd⟩
    · rw [herr] at hfeed
      exact .inr ⟨hfeed, by omega⟩
  · rw [hin] at hfeed
    exact .inr ⟨hfeed, by omega⟩

/-! ## Conjunctions -/

theorem feeds_conjunct (hr : r.Ready .conjunction) (h : r.Feeds limit .operand ts e n) :
    r.Feeds limit .conjunction ts e n := by
  obtain ⟨f, ⟨d, c, k⟩, o, p⟩ := r
  obtain ⟨hp, hc, hk⟩ := hr
  cases hp
  cases hc
  cases hk
  rcases h with ⟨r', hr', hpass, hn⟩ | herr
  · refine .inl ⟨r', hr', ?_, hn⟩
    cases hpass with
    | @operand _ k m hm =>
      show Passed limit .conjunction _ _ ⟨f, ⟨d, none, 0 + k⟩, o, .junction m⟩
      rw [Nat.zero_add]
      exact .conjunction ⟨f, ⟨d, none, 0⟩, o, .operand⟩ none k hm
  · exact .inr herr

/-- A phrase, and behind it tokens that join it and go on with another phrase. -/
theorem feeds_join {p q : Phrase} {g : Expr} {vs : List TokenKind} (next : Measured → Reader)
    (h : r.Feeds limit p ts e n)
    (hjoin : ∀ r', Passed limit p r e r' →
      r'.feed limit vs = Measured.capped limit e >>= fun c => (next c).feed limit us)
    (hnest : ∀ c, (next c).nesting = r.nesting)
    (hright : ∀ c, (next c).Feeds limit q us f m)
    (hpass : ∀ c r', c.expr = e → Passed limit q (next c) f r' → Passed limit p r g r')
    (he : e.height < g.height) (hf : f.height < g.height) :
    r.Feeds limit p (ts ++ vs) g (max n m) := by
  rcases h with ⟨r', hr', hleft, hn⟩ | ⟨herr, hdeep⟩
  · have hfeed : r.feed limit (ts ++ vs)
        = Measured.capped limit e >>= fun c => (next c).feed limit us := by
      rw [feed_append, hr']
      exact hjoin r' hleft
    rcases Measured.capped_cases limit e with ⟨c, hc, -, hcap⟩ | ⟨hlt, hcap⟩
    · rw [hcap] at hfeed
      have hnest := hnest c
      rcases hright c with ⟨r'', hr'', hright, hm⟩ | ⟨herr, hdeep⟩
      · exact .inl ⟨r'', hfeed.trans hr'', hpass c r'' hc hright, by omega⟩
      · exact .inr ⟨hfeed.trans herr, by omega⟩
    · -- the left operand is too high to be joined
      rw [hcap] at hfeed
      exact .inr ⟨hfeed, by omega⟩
  · have hfeed : r.feed limit (ts ++ vs) = .error (.tooDeep limit) := by
      rw [feed_append, herr]
      rfl
    exact .inr ⟨hfeed, by omega⟩

theorem feeds_and (hr : r.Ready .conjunction) (hn : r.nesting ≤ limit)
    (h : r.Feeds limit .conjunction ts e n)
    (ih : ∀ r : Reader, r.Ready .operand → r.nesting ≤ limit → r.Feeds limit .operand us f m) :
    r.Feeds limit .conjunction (ts ++ .keyword .and :: us) (.and e f) (max n m) := by
  obtain ⟨x, ⟨d, c, k⟩, o, p⟩ := r
  obtain ⟨hp, hc, hk⟩ := hr
  cases hp
  cases hc
  cases hk
  have hnest : ∀ c : Measured, nesting ⟨x, ⟨d, some c, 0⟩, o, .operand⟩
      = nesting ⟨x, ⟨d, none, 0⟩, o, .operand⟩ := by
    intro c
    rw [nesting_eq, nesting_eq]
  refine feeds_join (fun c => ⟨x, ⟨d, some c, 0⟩, o, .operand⟩) h ?_ hnest
    (fun c => ih _ rfl (by rw [hnest]; exact hn)) ?_ ?_ ?_
  · intro r' hpass
    cases hpass with
    | conjunction _ c k hm =>
      rw [feed_cons, step_and rfl, conjunction_eq_capped hm, bind_assoc]
      rfl
  · rintro c r' rfl hpass
    cases hpass with
    | @operand _ k m hm =>
      show Passed limit .conjunction _ _ ⟨x, ⟨d, some c, 0 + k⟩, o, .junction m⟩
      rw [Nat.zero_add]
      exact .conjunction ⟨x, ⟨d, none, 0⟩, o, .operand⟩ (some c) k hm
  · rw [Expr.height]
    omega
  · rw [Expr.height]
    omega

/-! ## Disjunctions -/

theorem feeds_disjunct (hr : r.Ready .disjunction) (h : r.Feeds limit .conjunction ts e n) :
    r.Feeds limit .disjunction ts e n := by
  obtain ⟨f, l, o, p⟩ := r
  obtain ⟨hp, hl⟩ := hr
  cases hp
  cases hl
  rcases h with ⟨r', hr', hpass, hn⟩ | herr
  · refine .inl ⟨r', hr', ?_, hn⟩
    cases hpass with
    | conjunction _ c k hm => exact .disjunction ⟨f, .empty, o, .operand⟩ ⟨none, c, k⟩ hm
  · exact .inr herr

theorem feeds_or (hr : r.Ready .disjunction) (hn : r.nesting ≤ limit)
    (h : r.Feeds limit .disjunction ts e n)
    (ih : ∀ r : Reader, r.Ready .conjunction → r.nesting ≤ limit →
      r.Feeds limit .conjunction us f m) :
    r.Feeds limit .disjunction (ts ++ .keyword .or :: us) (.or e f) (max n m) := by
  obtain ⟨x, l, o, p⟩ := r
  obtain ⟨hp, hl⟩ := hr
  cases hp
  cases hl
  have hnest : ∀ d : Measured, nesting ⟨x, ⟨some d, none, 0⟩, o, .operand⟩
      = nesting ⟨x, .empty, o, .operand⟩ := by
    intro d
    rw [nesting_eq, nesting_eq]
    rfl
  refine feeds_join (fun d => ⟨x, ⟨some d, none, 0⟩, o, .operand⟩) h ?_ hnest
    (fun d => ih _ ⟨rfl, rfl, rfl⟩ (by rw [hnest]; exact hn)) ?_ ?_ ?_
  · intro r' hpass
    cases hpass with
    | disjunction _ l hm =>
      rw [feed_cons, step_or rfl, disjunction_eq_capped hm, bind_assoc]
      rfl
  · rintro d r' rfl hpass
    cases hpass with
    | conjunction _ c k hm =>
      exact .disjunction ⟨x, .empty, o, .operand⟩ ⟨some d, c, k⟩ hm
  · rw [Expr.height]
    omega
  · rw [Expr.height]
    omega

/-! ## Filters -/

theorem feeds_whole (hr : r.Ready .filter) (h : r.Feeds limit .disjunction ts e n) :
    r.Feeds limit .filter ts e n := by
  cases hr
  rcases h with ⟨r', hr', hpass, hn⟩ | herr
  · refine .inl ⟨r', hr', ?_, hn⟩
    cases hpass with
    | disjunction _ l hm => exact .filter none l hm
  · exact .inr herr

/-- A phrase begins with a token that an operand begins with. -/
theorem exists_opens_of_derives {p : Phrase} (h : Derives p ts e n) :
    ∃ t us, ts = t :: us ∧ opens t = true := by
  induction h with
  | test h => cases h <;> exact ⟨_, _, rfl, rfl⟩
  | not h ih => exact ⟨_, _, rfl, rfl⟩
  | group h ih => exact ⟨_, _, rfl, rfl⟩
  | conjunct h ih => exact ih
  | disjunct h ih => exact ih
  | whole h ih => exact ih
  | and hl hr ihl ihr =>
    obtain ⟨t, us, rfl, ht⟩ := ihl
    exact ⟨t, _, rfl, ht⟩
  | or hl hr ihl ihr =>
    obtain ⟨t, us, rfl, ht⟩ := ihl
    exact ⟨t, _, rfl, ht⟩
  | next hl hr ihl ihr =>
    obtain ⟨t, us, rfl, ht⟩ := ihl
    exact ⟨t, _, rfl, ht⟩

theorem feeds_next (hr : r.Ready .filter) (h : r.Feeds limit .filter ts e n)
    (hus : Derives .disjunction us f m)
    (ih : ∀ r : Reader, r.Ready .disjunction → r.nesting ≤ limit →
      r.Feeds limit .disjunction us f m) :
    r.Feeds limit .filter (ts ++ us) (.and e f) (max n m) := by
  cases hr
  refine feeds_join (fun w => ⟨some w, .empty, [], .operand⟩) h ?_ (fun _ => rfl)
    (fun w => ih _ ⟨rfl, rfl⟩ (Nat.zero_le _)) ?_ ?_ ?_
  · intro r' hpass
    obtain ⟨t, us, rfl, ht⟩ := exists_opens_of_derives hus
    cases hpass with
    | filter x l hm =>
      rw [feed_cons, step_opens ht rfl rfl, whole_eq_capped hm, bind_assoc]
      rfl
  · rintro w r' rfl hpass
    cases hpass with
    | disjunction _ l hm => exact .filter (some w) l hm
  · rw [Expr.height]
    omega
  · rw [Expr.height]
    omega

/-! ## All phrases -/

/-- A phrase of the grammar is passed, or it is too deep. -/
theorem feeds_of_derives {p : Phrase} (h : Derives p ts e n) (hl : 0 < limit) :
    ∀ r : Reader, r.Ready p → r.nesting ≤ limit → r.Feeds limit p ts e n := by
  -- by induction on the derivation, for all readers: the parts of a phrase are read elsewhere
  induction h with
  | test h =>
    intro r hr hn
    exact feeds_test h hl hr hn
  | not h ih =>
    intro r hr hn
    exact feeds_not hr ih
  | group h ih =>
    intro r hr hn
    exact feeds_group hr ih
  | conjunct h ih =>
    intro r hr hn
    exact feeds_conjunct hr (ih r hr.1 hn)
  | and h₁ h₂ ih₁ ih₂ =>
    intro r hr hn
    exact feeds_and hr hn (ih₁ r hr hn) ih₂
  | disjunct h ih =>
    intro r hr hn
    refine feeds_disjunct hr (ih r ⟨hr.1, ?_, ?_⟩ hn)
    · rw [hr.2]
      rfl
    · rw [hr.2]
      rfl
  | or h₁ h₂ ih₁ ih₂ =>
    intro r hr hn
    exact feeds_or hr hn (ih₁ r hr hn) ih₂
  | whole h ih =>
    intro r hr hn
    cases hr
    exact feeds_whole rfl (ih start ⟨rfl, rfl⟩ hn)
  | next h₁ h₂ ih₁ ih₂ =>
    intro r hr hn
    exact feeds_next hr (ih₁ r hr hn) h₂ ih₂

/-- **Reading a filter of the grammar** gives its expression, unless that is too high or more
`not`s and parentheses are open at a time than the limit allows. -/
theorem finish_of_derives (h : Derives .filter ts e n) (hl : 0 < limit) :
    (start.feed limit ts >>= fun r => r.finish limit)
      = if n ≤ limit then Measured.capped limit e else .error (.tooDeep limit) := by
  have hstart : start.nesting = 0 := rfl
  rcases feeds_of_derives h hl start rfl (Nat.zero_le _) with ⟨r', hr', hpass, hn⟩ | ⟨herr, hdeep⟩
  · rw [hr', if_pos (by omega)]
    -- only the last joins are left, and only the height can be too great for them
    cases hpass with
    | @filter x l m hm =>
      have hwhole : finish limit ⟨x, l, [], .junction m⟩ = whole limit ⟨x, l, [], .junction m⟩ m :=
        finish_eq_whole rfl rfl
      exact hwhole.trans (whole_eq_capped (r := ⟨x, l, [], .junction m⟩) hm)
  · rw [herr]
    split
    · rw [Measured.capped_of_lt (by omega)]
      rfl
    · rfl

end Reader

end TraceViews.Filter
