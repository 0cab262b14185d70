import TraceViews.Text.Quoted

/-!
# What stands between quotes

The inside of a quoted string is read character by character, and a backslash together with the
character behind it (`Denotes`). Main statements: a text is cut at the first quote that is not read
with a backslash (`close?_eq_some_iff`), the inside stands for one text, which is its decoding
(`Denotes.decode_eq`), and there is no such quote exactly where the whole text can be read as an
inside, or all of it but a backslash at its end (`close?_eq_none_iff`).
-/

namespace TraceViews.Text.Quoted

/-- The characters with a meaning behind a backslash, and what they mean there. -/
def escapes : List (Char × Char) :=
  [('"', '"'), ('\\', '\\'), ('n', '\n'), ('t', '\t'), ('r', '\r')]

/-- The inside of a quoted string, and the text that it stands for. -/
inductive Denotes : List Char → List Char → Prop where
  | nil : Denotes [] []
  | plain {c : Char} {cs value : List Char} (hquote : c ≠ '"') (hslash : c ≠ '\\')
    (h : Denotes cs value) : Denotes (c :: cs) (c :: value)
  | escape {d c : Char} {cs value : List Char} (hd : (d, c) ∈ escapes) (h : Denotes cs value) :
    Denotes ('\\' :: d :: cs) (c :: value)
  | pair {d : Char} {cs value : List Char} (hd : ∀ c, (d, c) ∉ escapes) (h : Denotes cs value) :
    Denotes ('\\' :: d :: cs) ('\\' :: d :: value)

/-- A text behind an opening quote that has no closing one. A backslash at its end has nothing to
stand before. -/
def Unclosed (cs : List Char) : Prop :=
  ∃ inside value, Denotes inside value ∧ (cs = inside ∨ cs = inside ++ ['\\'])

/-! ## Pairs -/

theorem decodePair_of_mem {d c : Char} (h : (d, c) ∈ escapes) : decodePair d = [c] := by
  simp only [escapes, List.mem_cons, Prod.mk.injEq, List.not_mem_nil, or_false] at h
  rcases h with ⟨rfl, rfl⟩ | ⟨rfl, rfl⟩ | ⟨rfl, rfl⟩ | ⟨rfl, rfl⟩ | ⟨rfl, rfl⟩ <;> rfl

theorem decodePair_cases (d : Char) :
    (∃ c, (d, c) ∈ escapes ∧ decodePair d = [c]) ∨
      (∀ c, (d, c) ∉ escapes) ∧ decodePair d = ['\\', d] := by
  by_cases h : ∃ c, (d, c) ∈ escapes
  · obtain ⟨c, hc⟩ := h
    exact .inl ⟨c, hc, decodePair_of_mem hc⟩
  · refine .inr ⟨not_exists.1 h, ?_⟩
    simp only [escapes, List.mem_cons, Prod.mk.injEq, List.not_mem_nil, or_false] at h
    rw [decodePair.eq_def]
    split <;> simp at h ⊢

/-- A backslash is always read with the character behind it. -/
theorem Denotes.cons_pair {cs value : List Char} (h : Denotes cs value) (d : Char) :
    Denotes ('\\' :: d :: cs) (decodePair d ++ value) := by
  rcases decodePair_cases d with ⟨c, hc, hpair⟩ | ⟨hnone, hpair⟩
  · rw [hpair]
    exact .escape hc h
  · rw [hpair]
    exact .pair hnone h

theorem decode_cons {c : Char} (h : c ≠ '\\') (cs : List Char) :
    decode (c :: cs) = c :: decode cs := by
  cases cs with
  | nil => rfl
  | cons d cs => rw [decode, if_neg h]

theorem decode_pair (d : Char) (cs : List Char) :
    decode ('\\' :: d :: cs) = decodePair d ++ decode cs := by
  rw [decode, if_pos rfl]

/-- **An inside stands for one text.** -/
theorem Denotes.decode_eq {inside value : List Char} (h : Denotes inside value) :
    decode inside = value := by
  induction h with
  | nil => rfl
  | plain _ hslash _ ih => rw [decode_cons hslash, ih]
  | escape hd _ ih =>
    rw [decode_pair, decodePair_of_mem hd, ih]
    rfl
  | @pair d _ _ hd _ ih =>
    rcases decodePair_cases d with ⟨c, hc, -⟩ | ⟨-, hpair⟩
    · exact absurd hc (hd c)
    · rw [decode_pair, hpair, ih]
      rfl

/-! ## The closing quote -/

theorem close?_quote (cs : List Char) : close? ('"' :: cs) = some ([], cs) := by
  rw [close?.eq_def]
  exact if_pos rfl

theorem close?_pair (d : Char) (cs : List Char) :
    close? ('\\' :: d :: cs) = (close? cs).map fun parts => ('\\' :: d :: parts.1, parts.2) := by
  have hquote : '\\' ≠ '"' := by decide
  rw [close?.eq_def]
  simp only [if_neg hquote, if_true]

theorem close?_plain {c : Char} (hquote : c ≠ '"') (hslash : c ≠ '\\') (cs : List Char) :
    close? (c :: cs) = (close? cs).map fun parts => (c :: parts.1, parts.2) := by
  rw [close?.eq_def]
  simp only [if_neg hquote, if_neg hslash]

/-- What is read as an inside is passed over in the search for the closing quote. -/
theorem Denotes.close?_append {inside value : List Char} (h : Denotes inside value)
    (cs : List Char) :
    close? (inside ++ cs) = (close? cs).map fun parts => (inside ++ parts.1, parts.2) := by
  induction h with
  | nil => simp
  | plain hquote hslash _ ih =>
    rw [List.cons_append, close?_plain hquote hslash, ih, Option.map_map]
    rfl
  | escape _ _ ih =>
    rw [List.cons_append, List.cons_append, close?_pair, ih, Option.map_map]
    rfl
  | pair _ _ ih =>
    rw [List.cons_append, List.cons_append, close?_pair, ih, Option.map_map]
    rfl

/-- The search passes over an inside, up to the closing quote or the end of the text. -/
theorem exists_denotes_close? (cs : List Char) :
    (∃ inside rest, close? cs = some (inside, rest) ∧ Denotes inside (decode inside)) ∨
      close? cs = none ∧ Unclosed cs := by
  fun_induction close? cs with
  | case1 => exact .inr ⟨rfl, [], [], .nil, .inl rfl⟩
  | case2 cs => exact .inl ⟨[], cs, rfl, .nil⟩
  | case3 => exact .inr ⟨rfl, [], [], .nil, .inr rfl⟩
  | case4 d cs _ ih =>
    rcases ih with ⟨inside, rest, hclose, hinside⟩ | ⟨hclose, inside, value, hinside, hend⟩
    · refine .inl ⟨'\\' :: d :: inside, rest, by rw [hclose]; rfl, ?_⟩
      rw [decode_pair]
      exact hinside.cons_pair d
    · refine .inr ⟨by rw [hclose]; rfl, _, _, hinside.cons_pair d, ?_⟩
      exact hend.imp (congrArg ('\\' :: d :: ·)) (congrArg ('\\' :: d :: ·))
  | case5 c cs hquote hslash ih =>
    rcases ih with ⟨inside, rest, hclose, hinside⟩ | ⟨hclose, inside, value, hinside, hend⟩
    · refine .inl ⟨c :: inside, rest, by rw [hclose]; rfl, ?_⟩
      rw [decode_cons hslash]
      exact .plain hquote hslash hinside
    · refine .inr ⟨by rw [hclose]; rfl, _, _, .plain hquote hslash hinside, ?_⟩
      exact hend.imp (congrArg (c :: ·)) (congrArg (c :: ·))

/-- **The closing quote** is the first one that is not read with a backslash. -/
theorem close?_eq_some_iff {cs inside rest : List Char} :
    close? cs = some (inside, rest) ↔
      cs = inside ++ '"' :: rest ∧ ∃ value, Denotes inside value := by
  constructor
  · intro h
    refine ⟨eq_of_close? h, decode inside, ?_⟩
    rcases exists_denotes_close? cs with ⟨inside', rest', hclose, hinside⟩ | ⟨hclose, -⟩
    · cases h.symm.trans hclose
      exact hinside
    · cases h.symm.trans hclose
  · rintro ⟨rfl, value, hinside⟩
    rw [hinside.close?_append, close?_quote, Option.map_some, List.append_nil]

/-- **There is no closing quote** where all of the text is read. -/
theorem close?_eq_none_iff {cs : List Char} : close? cs = none ↔ Unclosed cs := by
  constructor
  · intro h
    rcases exists_denotes_close? cs with ⟨inside, rest, hclose, -⟩ | ⟨-, hopen⟩
    · cases h.symm.trans hclose
    · exact hopen
  · rintro ⟨inside, value, hinside, rfl | rfl⟩
    · have hnone := hinside.close?_append []
      rwa [List.append_nil] at hnone
    · rw [hinside.close?_append]
      rfl

end TraceViews.Text.Quoted
