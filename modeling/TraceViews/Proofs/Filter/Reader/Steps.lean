import TraceViews.Proofs.Filter.Reader.Joining

/-!
# The steps of a reader

What one token can do to a reader: it goes on with a comparison (`Phase.Goes`), it begins an
operand, or it stands behind one and joins it as far as needed. `step_cases` and
`stepJunction_cases` say that there is nothing else.
-/

namespace TraceViews.Filter

/-! ## Inside a comparison -/

/-- How a comparison goes on: the phase, the token, and the phase behind it. -/
inductive Phase.Goes : Phase → TokenKind → Phase → Prop where
  | eq (name : String) : Goes (.relation name) (.keyword .eq) (.literal name)
  | contains (name : String) : Goes (.relation name) (.keyword .contains) (.needle name)
  | within (name : String) : Goes (.relation name) (.keyword .within) (.list name)
  | eqText (name s : String) :
    Goes (.literal name) (.text s) (.junction (.test (.eq name (.text s))))
  | eqNumber (name : String) (n : Int64) :
    Goes (.literal name) (.number n) (.junction (.test (.eq name (.integer n))))
  | needle (name s : String) :
    Goes (.needle name) (.text s) (.junction (.test (.contains name s)))
  | list (name : String) : Goes (.list name) (.mark .openBracket) (.firstItem name)
  | noItem (name : String) :
    Goes (.firstItem name) (.mark .closeBracket) (.junction (.test (.within name (.texts []))))
  | firstText (name s : String) : Goes (.firstItem name) (.text s) (.textEnd name [s])
  | firstNumber (name : String) (n : Int64) :
    Goes (.firstItem name) (.number n) (.numberEnd name [n])
  | nextText (name : String) (items : List String) (s : String) :
    Goes (.textItem name items) (.text s) (.textEnd name (s :: items))
  | nextNumber (name : String) (items : List Int64) (n : Int64) :
    Goes (.numberItem name items) (.number n) (.numberEnd name (n :: items))
  | textComma (name : String) (items : List String) :
    Goes (.textEnd name items) (.mark .comma) (.textItem name items)
  | numberComma (name : String) (items : List Int64) :
    Goes (.numberEnd name items) (.mark .comma) (.numberItem name items)
  | texts (name : String) (items : List String) :
    Goes (.textEnd name items) (.mark .closeBracket)
      (.junction (.test (.within name (.texts items.reverse))))
  | numbers (name : String) (items : List Int64) :
    Goes (.numberEnd name items) (.mark .closeBracket)
      (.junction (.test (.within name (.numbers items.reverse))))

namespace Reader

variable {limit : Nat} {r : Reader} {m : Measured}

/-- What a step can do. -/
theorem step_cases {t : TokenKind} {r' : Reader} (h : r.step limit t = .ok r') :
    (∃ p, r.phase.Goes t p ∧ r' = { r with phase := p }) ∨
    (r.phase = .operand ∧ r.stepOperand limit t = .ok r') ∨
    (∃ m, r.phase = .junction m ∧ r.stepJunction limit m t = .ok r') := by
  -- a phase of a comparison and a token that it goes on with
  have goes : ∀ {t p}, r.phase.Goes t p → r.goto p = .ok r' →
      ∃ p, r.phase.Goes t p ∧ r' = { r with phase := p } := by
    intro t p hg h
    cases h
    exact ⟨p, hg, rfl⟩
  rw [step.eq_def] at h
  split at h
  case h_1 hp => exact .inr (.inl ⟨hp, h⟩)
  case h_2 hp => exact .inl (goes (hp ▸ .eq _) h)
  case h_3 hp => exact .inl (goes (hp ▸ .contains _) h)
  case h_4 hp => exact .inl (goes (hp ▸ .within _) h)
  case h_5 hp => exact .inl (goes (hp ▸ .eqText _ _) h)
  case h_6 hp => exact .inl (goes (hp ▸ .eqNumber _ _) h)
  case h_7 hp => exact .inl (goes (hp ▸ .needle _ _) h)
  case h_8 hp => exact .inl (goes (hp ▸ .list _) h)
  case h_9 hp => exact .inl (goes (hp ▸ .noItem _) h)
  case h_10 hp => exact .inl (goes (hp ▸ .firstText _ _) h)
  case h_11 hp => exact .inl (goes (hp ▸ .firstNumber _ _) h)
  case h_12 hp => exact .inl (goes (hp ▸ .nextText _ _ _) h)
  case h_13 => cases h
  case h_14 hp => exact .inl (goes (hp ▸ .nextNumber _ _ _) h)
  case h_15 => cases h
  case h_16 hp => exact .inl (goes (hp ▸ .textComma _ _) h)
  case h_17 hp => exact .inl (goes (hp ▸ .texts _ _) h)
  case h_18 hp => exact .inl (goes (hp ▸ .numberComma _ _) h)
  case h_19 hp => exact .inl (goes (hp ▸ .numbers _ _) h)
  case h_20 m hp => exact .inr (.inr ⟨m, hp, h⟩)
  case h_21 => cases h

/-! ## Behind an operand -/

theorem step_and (hp : r.phase = .junction m) :
    r.step limit (.keyword .and) = r.conjunction limit m >>= fun c =>
      .ok { r with level := ⟨r.level.disjunct, some c, 0⟩, phase := .operand } := by
  simp only [step, hp, stepJunction, if_true]
  rfl

theorem step_or (hp : r.phase = .junction m) :
    r.step limit (.keyword .or) = r.disjunction limit m >>= fun d =>
      .ok { r with level := ⟨some d, none, 0⟩, phase := .operand } := by
  simp only [step, hp, stepJunction, disjunction]
  cases r.conjunction limit m <;> rfl

theorem step_close {l : Level} {ls : List Level} (hp : r.phase = .junction m)
    (ho : r.outer = l :: ls) :
    r.step limit (.mark .closeParen) = r.disjunction limit m >>= fun d =>
      .ok { r with level := l, outer := ls, phase := .junction d } := by
  simp only [step, hp, stepJunction, disjunction, ho]
  cases r.conjunction limit m <;> rfl

/-- A token that an operand begins with. -/
def opens : TokenKind → Bool
  | .ident _ => true
  | .keyword .not => true
  | .mark .openParen => true
  | _ => false

theorem step_opens {t : TokenKind} (ht : opens t = true) (hp : r.phase = .junction m)
    (ho : r.outer = []) :
    r.step limit t
      = r.whole limit m >>= fun w => step limit ⟨some w, .empty, [], .operand⟩ t := by
  -- such a token is no junction, so everything that waits is joined first
  have hand : t ≠ .keyword .and := by
    rintro rfl
    cases ht
  have hor : t ≠ .keyword .or := by
    rintro rfl
    cases ht
  simp only [step, hp, stepJunction, whole, disjunction, ho, if_neg hand, if_neg hor, bind_assoc]
  refine bind_congr fun c => bind_congr fun d => bind_congr fun w => ?_
  -- and then it is read as the first one of an operand
  cases t with
  | ident name => rfl
  | text s => cases ht
  | number n => cases ht
  | keyword k => cases k <;> first | rfl | cases ht
  | mark k => cases k <;> first | rfl | cases ht

/-- What a step behind an operand can do. -/
theorem stepJunction_cases {t : TokenKind} {r' : Reader}
    (h : r.stepJunction limit m t = .ok r') :
    (t = .keyword .and ∧ ∃ c, r.conjunction limit m = .ok c ∧
      r' = { r with level := ⟨r.level.disjunct, some c, 0⟩, phase := .operand }) ∨
    (t = .keyword .or ∧ ∃ d, r.disjunction limit m = .ok d ∧
      r' = { r with level := ⟨some d, none, 0⟩, phase := .operand }) ∨
    (t = .mark .closeParen ∧ ∃ l ls d, r.outer = l :: ls ∧ r.disjunction limit m = .ok d ∧
      r' = { r with level := l, outer := ls, phase := .junction d }) ∨
    (r.outer = [] ∧ ∃ w, r.whole limit m = .ok w ∧
      stepOperand limit ⟨some w, .empty, [], .operand⟩ t = .ok r') := by
  -- the joins are made one by one, and the token decides after each how far they go
  rw [stepJunction] at h
  obtain ⟨c, hc, h⟩ := exists_of_bind_eq_ok h
  by_cases hand : t = .keyword .and
  · rw [if_pos hand] at h
    cases h
    exact .inl ⟨hand, c, hc, rfl⟩
  rw [if_neg hand] at h
  obtain ⟨d, hd, h⟩ := exists_of_bind_eq_ok h
  have hd' : r.disjunction limit m = .ok d := by
    rw [disjunction, hc]
    exact hd
  by_cases hor : t = .keyword .or
  · rw [if_pos hor] at h
    cases h
    exact .inr (.inl ⟨hor, d, hd', rfl⟩)
  rw [if_neg hor] at h
  cases ho : r.outer with
  | cons l ls =>
    simp only [ho] at h
    by_cases hclose : t = .mark .closeParen
    · rw [if_pos hclose] at h
      cases h
      exact .inr (.inr (.inl ⟨hclose, l, ls, d, rfl, hd', rfl⟩))
    · rw [if_neg hclose] at h
      cases h
  | nil =>
    rw [ho] at h
    obtain ⟨w, hw, h⟩ := exists_of_bind_eq_ok h
    have hw' : r.whole limit m = .ok w := by
      rw [whole, hd']
      exact hw
    refine .inr (.inr (.inr ⟨rfl, w, hw', ?_⟩))
    -- a token that no operand begins with is refused
    split at h
    · exact h
    · exact h
    · exact h
    · cases h

/-- A reader that may end stands behind an operand, outside of parentheses. -/
theorem finish_cases {w : Measured} (h : r.finish limit = .ok w) :
    ∃ m, r.phase = .junction m ∧ r.outer = [] ∧ r.whole limit m = .ok w := by
  rw [finish.eq_def] at h
  split at h
  case h_1 m hp =>
    obtain ⟨c, hc, h⟩ := exists_of_bind_eq_ok h
    obtain ⟨d, hd, h⟩ := exists_of_bind_eq_ok h
    split at h
    · refine ⟨m, hp, List.isEmpty_iff.mp ‹_›, ?_⟩
      rw [whole, disjunction, hc]
      change Measured.disjoin limit r.level.disjunct c >>= _ = _
      rw [hd]
      exact h
    · cases h
  case h_2 => cases h

theorem finish_eq_whole (hp : r.phase = .junction m) (ho : r.outer = []) :
    r.finish limit = r.whole limit m := by
  simp only [finish, hp, whole, disjunction, ho]
  cases r.conjunction limit m <;> rfl

/-! ## Sequences of tokens -/

/-- Reads tokens without places, up to the first fault. -/
def feed (limit : Nat) (r : Reader) (ts : List TokenKind) : Except Fault Reader :=
  ts.foldlM (step limit) r

@[simp] theorem feed_cons (limit : Nat) (r : Reader) (t : TokenKind) (ts : List TokenKind) :
    feed limit r (t :: ts) = r.step limit t >>= fun r => feed limit r ts :=
  List.foldlM_cons

theorem feed_singleton (limit : Nat) (r : Reader) (t : TokenKind) :
    feed limit r [t] = r.step limit t := by
  rw [feed_cons]
  cases r.step limit t <;> rfl

theorem feed_append (limit : Nat) (r : Reader) (ts us : List TokenKind) :
    feed limit r (ts ++ us) = feed limit r ts >>= fun r => feed limit r us :=
  List.foldlM_append

end Reader

end TraceViews.Filter
