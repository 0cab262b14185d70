import TraceViews.Proofs.Filter.Parse
import TraceViews.Proofs.Filter.Places
import TraceViews.Proofs.Filter.Reader.Viability

/-!
# The first fault of a source

A fault comes from a token that is refused, from the end of the source, or from a character where no
token can be read, and its kind says from where. Main statement: what lies before the place of a
fault is a viable beginning, and what is found there takes that away (`firstFault_of_parse`). So a
fault never hides one further left, and a good beginning is never blamed.
-/

namespace TraceViews.Filter

variable {limit : Nat} {fault : Fault}

/-! ## Where faults come from -/

/-- The computation fails with faults of a kind alone. -/
def FailsWith {α : Type} (kind : Fault → Prop) (x : Except Fault α) : Prop :=
  ∀ fault, x = .error fault → kind fault

namespace FailsWith

variable {α β : Type} {kind kind' : Fault → Prop} {x : Except Fault α} {f : α → Except Fault β}

theorem ok (a : α) : FailsWith kind (.ok a : Except Fault α) := nofun

theorem error (h : kind fault) : FailsWith kind (.error fault : Except Fault α) := by
  intro fault' heq
  cases heq
  exact h

theorem mono (h : FailsWith kind x) (hkind : ∀ fault, kind fault → kind' fault) :
    FailsWith kind' x :=
  fun fault hx => hkind fault (h fault hx)

theorem bind (h : FailsWith kind x) (hf : ∀ a, FailsWith kind (f a)) :
    FailsWith kind (x >>= f) := by
  cases x with
  | error fault => exact error (h fault rfl)
  | ok a => exact hf a

end FailsWith

namespace Measured

theorem failsWith_bounded (m : Measured) : FailsWith (· = .tooDeep limit) (m.bounded limit) := by
  rw [bounded]
  split
  · exact .ok m
  · exact .error rfl

theorem failsWith_negateAll (n : Nat) (m : Measured) :
    FailsWith (· = .tooDeep limit) (m.negateAll limit n) := by
  induction n generalizing m with
  | zero => exact .ok m
  | succ n ih => exact .bind (failsWith_bounded _) ih

theorem failsWith_conjoin (left : Option Measured) (m : Measured) :
    FailsWith (· = .tooDeep limit) (conjoin limit left m) := by
  cases left with
  | none => exact .ok m
  | some left => exact failsWith_bounded _

theorem failsWith_disjoin (left : Option Measured) (m : Measured) :
    FailsWith (· = .tooDeep limit) (disjoin limit left m) := by
  cases left with
  | none => exact .ok m
  | some left => exact failsWith_bounded _

end Measured

/-- The faults that a reader finds at a token. -/
inductive Fault.AtToken (limit : Nat) (t : TokenKind) : Fault → Prop where
  | tooDeep : AtToken limit t (.tooDeep limit)
  | mixedList : AtToken limit t .mixedList
  | unexpected (expected : Expected) : AtToken limit t (.unexpectedToken t expected)

/-- The faults that a reader finds at the end. -/
inductive Fault.AtEnd (limit : Nat) : Fault → Prop where
  | tooDeep : AtEnd limit (.tooDeep limit)
  | unexpected (expected : Expected) : AtEnd limit (.unexpectedEnd expected)

/-- A limit may be passed at a token, -/
theorem FailsWith.atToken {α : Type} {x : Except Fault α} (h : FailsWith (· = .tooDeep limit) x)
    (t : TokenKind) : FailsWith (Fault.AtToken limit t) x :=
  h.mono fun _ heq => heq ▸ .tooDeep

/-- and at the end. -/
theorem FailsWith.atEnd {α : Type} {x : Except Fault α} (h : FailsWith (· = .tooDeep limit) x) :
    FailsWith (Fault.AtEnd limit) x :=
  h.mono fun _ heq => heq ▸ .tooDeep

/-- The faults of characters. -/
inductive Fault.AtCharacter : Fault → Prop where
  | unterminated : AtCharacter .unterminatedString
  | invalid (c : Char) : AtCharacter (.invalidCharacter c)
  | number (spelling : List Char) : AtCharacter (.invalidNumber spelling)

namespace Reader

theorem failsWith_conjunction (r : Reader) (m : Measured) :
    FailsWith (· = .tooDeep limit) (r.conjunction limit m) :=
  .bind (Measured.failsWith_negateAll _ m) (Measured.failsWith_conjoin _)

theorem failsWith_enter (r opened : Reader) :
    FailsWith (· = .tooDeep limit) (r.enter limit opened) := by
  rw [enter]
  split
  · exact .ok opened
  · exact .error rfl

theorem failsWith_stepOperand (r : Reader) (t : TokenKind) :
    FailsWith (Fault.AtToken limit t) (r.stepOperand limit t) := by
  rw [stepOperand.eq_def]
  split
  · exact .ok _
  · exact (failsWith_enter r _).atToken _
  · exact (failsWith_enter r _).atToken _
  · exact .error (.unexpected _)

theorem failsWith_stepJunction (r : Reader) (m : Measured) (t : TokenKind) :
    FailsWith (Fault.AtToken limit t) (r.stepJunction limit m t) := by
  rw [stepJunction]
  refine .bind ((failsWith_conjunction r m).atToken t) ?_
  intro c
  split
  · exact .ok _
  refine .bind ((Measured.failsWith_disjoin _ c).atToken t) ?_
  intro d
  split
  · exact .ok _
  split
  · split
    · exact .ok _
    · exact .error (.unexpected _)
  · refine .bind ((Measured.failsWith_conjoin _ d).atToken t) ?_
    intro w
    split
    · exact failsWith_stepOperand _ _
    · exact failsWith_stepOperand _ _
    · exact failsWith_stepOperand _ _
    · exact .error (.unexpected _)

/-- **The faults of a step** are those of its token. -/
theorem failsWith_step (r : Reader) (t : TokenKind) :
    FailsWith (Fault.AtToken limit t) (r.step limit t) := by
  rw [step.eq_def]
  split
  case h_1 => exact failsWith_stepOperand r _
  case h_13 => exact .error .mixedList
  case h_15 => exact .error .mixedList
  case h_20 => exact failsWith_stepJunction r _ _
  case h_21 => exact .error (.unexpected _)
  all_goals exact .ok _

theorem failsWith_finish (r : Reader) : FailsWith (Fault.AtEnd limit) (r.finish limit) := by
  rw [finish.eq_def]
  split
  · refine .bind (failsWith_conjunction r _).atEnd ?_
    intro c
    refine .bind (Measured.failsWith_disjoin _ c).atEnd ?_
    intro d
    split
    · exact (Measured.failsWith_conjoin _ d).atEnd
    · exact .error (.unexpected _)
  · exact .error (.unexpected _)

end Reader

theorem failsWith_readLexeme (c : Char) (cs : List Char) :
    FailsWith Fault.AtCharacter (readLexeme c cs) := by
  rw [readLexeme.eq_def]
  split
  · exact .ok _
  split
  · split
    · exact .error .unterminated
    · exact .ok _
  split
  · dsimp only
    split
    · exact .ok _
    · exact .error (.number _)
  split
  · exact .ok _
  · exact .error (.invalid c)

/-! ## Where reading stops -/

namespace Reader

variable {r r' : Reader} {tokens : List Token}

theorem feed_of_run (h : r.run limit tokens = .ok r') :
    r.feed limit (tokens.map Token.kind) = .ok r' := by
  rw [← fault_of_run, h]
  rfl

/-- A run stops at a token that is refused behind those that have been read. -/
theorem exists_of_run_eq_error {l : Located} (h : r.run limit tokens = .error l) :
    ∃ before t after r', tokens = before ++ t :: after ∧
      r.feed limit (before.map Token.kind) = .ok r' ∧ r'.step limit t.kind = .error l.fault ∧
      l.position = t.position := by
  induction tokens generalizing r with
  | nil => cases h
  | cons t tokens ih =>
    rw [run] at h
    cases hstep : r.step limit t.kind with
    | error fault =>
      rw [hstep] at h
      cases h
      exact ⟨[], t, tokens, r, rfl, rfl, hstep, rfl⟩
    | ok r₁ =>
      rw [hstep] at h
      obtain ⟨before, u, after, r', rfl, hfeed, hrefused, hposition⟩ := ih h
      refine ⟨t :: before, u, after, r', rfl, ?_, hrefused, hposition⟩
      rw [List.map_cons, feed_cons, hstep]
      exact hfeed

end Reader

/-! ## Places -/

/-- A place of a source where a fault can be found: before a character that is no line break, or at
the end. -/
structure IsPlace (source : List Char) (position : Nat) (before after : List Char) : Prop where
  source_eq : source = before ++ after
  position_eq : position = Text.byteLength before
  head : after.head? ≠ some '\n'

theorem ne_newline_of_isBlank {c : Char} (h : Text.isBlank c = false) : c ≠ '\n' := by
  rintro rfl
  exact absurd h (by decide)

/-- A token stands at a place. -/
theorem exists_place_of_token {source : List Char} {t : Token} (ht : t ∈ (scan source).tokens) :
    ∃ before after, IsPlace source t.position before after := by
  obtain ⟨-, before, after, hsource, hposition⟩ := (scanFrom_inPlace 0 source).token t ht
  obtain ⟨c, more, hlexeme, hc⟩ := exists_lexeme_of_mem_scanFrom ht
  refine ⟨before, t.lexeme ++ after, ?_, hposition.trans (Nat.zero_add _), ?_⟩
  · rw [hsource, List.append_assoc]
  · rw [hlexeme]
    simpa using ne_newline_of_isBlank hc

/-- **A fault is found at a place**: at a token, at a character that begins none, or at the end. -/
theorem exists_place_of_readScan {limit : Nat} {source : List Char} {l : Located}
    (h : readScan limit (scan source) = .error l) :
    ∃ before after, IsPlace source l.position before after := by
  have hplace := scanFrom_inPlace 0 source
  rw [readScan] at h
  cases hrun : Reader.start.run limit (scan source).tokens with
  | error l' =>
    rw [hrun] at h
    cases h
    obtain ⟨earlier, t, later, -, htokens, -, -, hposition⟩ := Reader.exists_of_run_eq_error hrun
    rw [hposition]
    refine exists_place_of_token ?_
    rw [htokens]
    exact List.mem_append_right earlier List.mem_cons_self
  | ok r =>
    cases hend : (scan source).ending with
    | broken l' =>
      rw [hrun, hend] at h
      cases h
      obtain ⟨-, before, c, after, hsource, hposition, hc, -⟩ := hplace.broken l hend
      refine ⟨before, c :: after, hsource, hposition.trans (Nat.zero_add _), ?_⟩
      simpa using ne_newline_of_isBlank hc
    | complete position =>
      have hposition : l.position = position := by
        rw [hrun, hend] at h
        cases hfinish : r.finish limit with
        | ok m => simp [hfinish, bind, Except.bind] at h
        | error fault =>
          simp only [hfinish, bind, Except.bind, Except.error.injEq] at h
          rw [← h]
      have hsource := (hplace.complete position hend).trans (Nat.zero_add _)
      have hhead : [].head? ≠ some '\n' := (Option.some_ne_none _).symm
      exact ⟨source, [], (List.append_nil _).symm, hposition.trans hsource, hhead⟩

/-- A syntax error at a place shows what is before it and behind it. -/
theorem IsPlace.ofLocated_eq {source before after : List Char} {l : Located}
    (h : IsPlace source l.position before after) :
    SyntaxError.ofLocated source l
      = ⟨l.fault, l.position, before.length + 1, String.ofList (excerpt before after)⟩ := by
  have hle : l.position ≤ Text.byteLength source := by
    rw [h.source_eq, Text.byteLength_append, h.position_eq]
    exact Nat.le_add_right ..
  have hsplit : Text.splitAtByte l.position source = (before, after) := by
    rw [h.source_eq, h.position_eq, Text.splitAtByte_byteLength]
  simp only [SyntaxError.ofLocated, Nat.min_eq_left hle, hsplit]

/-- **A source is refused at a place.** -/
theorem exists_place_of_parse {source : String} {x : SyntaxError} (h : parse source = .error x) :
    ∃ l before after, readScan maxDepth (scan source.toList) = .error l ∧
      IsPlace source.toList l.position before after ∧
      x = ⟨l.fault, l.position, before.length + 1, String.ofList (excerpt before after)⟩ := by
  rw [parse] at h
  cases hread : readScan maxDepth (scan source.toList) with
  | ok e =>
    rw [hread] at h
    cases h
  | error l =>
    obtain ⟨before, after, hplace⟩ := exists_place_of_readScan hread
    rw [hread] at h
    cases h
    exact ⟨l, before, after, rfl, hplace, hplace.ofLocated_eq⟩

/-! ## The first fault -/

/-- A fault at a byte position of a source is the first one. -/
structure FirstFault (source : List Char) (fault : Fault) (position : Nat) : Prop where
  /-- The tokens before it are a viable beginning. -/
  viable : Viable ((tokensBefore source position).map Token.kind)
  /-- A fault of a token is found at the next one, and no filter goes on with that. -/
  token : (fault = .mixedList ∨ ∃ found expected, fault = .unexpectedToken found expected) →
    ∃ t after, (scan source).tokens = tokensBefore source position ++ t :: after ∧
      t.position = position ∧
      (∀ found expected, fault = .unexpectedToken found expected → found = t.kind) ∧
      ¬ Viable ((tokensBefore source position).map Token.kind ++ [t.kind])
  /-- An unexpected end is that of the source, behind all tokens, and they are no filter. -/
  ending : ∀ expected, fault = .unexpectedEnd expected →
    tokensBefore source position = (scan source).tokens ∧
      (scan source).ending = .complete position ∧ position = Text.byteLength source ∧
      ∀ e, ¬ Stands .filter ((tokensBefore source position).map Token.kind) e
  /-- A fault of characters is found behind all tokens, where no token can be read for it. -/
  character : fault.AtCharacter →
    tokensBefore source position = (scan source).tokens ∧
      (scan source).ending = .broken ⟨fault, position⟩ ∧
      ∃ before c after, source = before ++ c :: after ∧ position = Text.byteLength before ∧
        Text.isBlank c = false ∧ readLexeme c after = .error fault

section FirstFault

variable {source : List Char} {position : Nat} {r : Reader}

theorem firstFault_of_run
    (h : Reader.start.run limit (scan source).tokens = .error ⟨fault, position⟩)
    (hdeep : fault ≠ .tooDeep limit) : FirstFault source fault position := by
  obtain ⟨before, t, after, r, htokens, hfeed, hstep, rfl⟩ := Reader.exists_of_run_eq_error h
  have hbefore := tokensBefore_eq_of_token htokens
  have hviable := Reader.viable_of_feed hfeed
  have hrefused := Reader.not_viable_of_step hfeed hstep hdeep
  rw [← hbefore] at htokens hviable hrefused
  cases Reader.failsWith_step r t.kind fault hstep with
  | tooDeep => exact absurd rfl hdeep
  | mixedList =>
    exact ⟨hviable, fun _ => ⟨t, after, htokens, rfl, nofun, hrefused⟩, nofun, nofun⟩
  | unexpected expected =>
    refine ⟨hviable, fun _ => ⟨t, after, htokens, rfl, ?_, hrefused⟩, nofun, nofun⟩
    intro found expected' heq
    cases heq
    rfl

theorem firstFault_of_finish (h : Reader.start.run limit (scan source).tokens = .ok r)
    (hend : (scan source).ending = .complete position)
    (hfinish : r.finish limit = .error fault) (hdeep : fault ≠ .tooDeep limit) :
    FirstFault source fault position := by
  have hfeed := Reader.feed_of_run h
  have hplace : position = Text.byteLength source :=
    ((scanFrom_inPlace 0 source).complete position hend).trans (Nat.zero_add _)
  have hbefore : tokensBefore source position = (scan source).tokens := by
    rw [hplace, tokensBefore_byteLength]
  have hviable := Reader.viable_of_feed hfeed
  have hnone := Reader.not_stands_of_finish hfeed hfinish hdeep
  rw [← hbefore] at hviable hnone
  cases Reader.failsWith_finish r fault hfinish with
  | tooDeep => exact absurd rfl hdeep
  | unexpected expected =>
    exact ⟨hviable, by simp, fun _ _ => ⟨hbefore, hend, hplace, hnone⟩, nofun⟩

theorem firstFault_of_broken (h : Reader.start.run limit (scan source).tokens = .ok r)
    (hend : (scan source).ending = .broken ⟨fault, position⟩) :
    FirstFault source fault position := by
  obtain ⟨hstops, before, c, after, hsource, hplace, hc, hread⟩ :=
    (scanFrom_inPlace 0 source).broken _ hend
  have hplace : position = Text.byteLength before := hplace.trans (Nat.zero_add _)
  have hbefore := tokensBefore_eq_of_stops hstops
  have hviable := Reader.viable_of_feed (Reader.feed_of_run h)
  rw [← hbefore] at hviable
  have hcharacter : fault.AtCharacter → tokensBefore source position = (scan source).tokens ∧
      (scan source).ending = .broken ⟨fault, position⟩ ∧
      ∃ before c after, source = before ++ c :: after ∧ position = Text.byteLength before ∧
        Text.isBlank c = false ∧ readLexeme c after = .error fault :=
    fun _ => ⟨hbefore, hend, before, c, after, hsource, hplace, hc, hread⟩
  cases failsWith_readLexeme c after fault hread with
  | unterminated => exact ⟨hviable, by simp, nofun, hcharacter⟩
  | invalid c => exact ⟨hviable, by simp, nofun, hcharacter⟩
  | number spelling => exact ⟨hviable, by simp, nofun, hcharacter⟩

/-- A source is refused at a token, at its end, or at a character behind its tokens. -/
theorem firstFault_of_readScan (h : readScan limit (scan source) = .error ⟨fault, position⟩)
    (hdeep : fault ≠ .tooDeep limit) : FirstFault source fault position := by
  rw [readScan] at h
  cases hrun : Reader.start.run limit (scan source).tokens with
  | error l =>
    rw [hrun] at h
    cases h
    exact firstFault_of_run hrun hdeep
  | ok r =>
    cases hend : (scan source).ending with
    | broken l =>
      rw [hrun, hend] at h
      cases h
      exact firstFault_of_broken hrun hend
    | complete position' =>
      rw [hrun, hend] at h
      cases hfinish : r.finish limit with
      | ok m => simp [hfinish, bind, Except.bind] at h
      | error fault' =>
        simp only [hfinish, bind, Except.bind, Except.error.injEq, Located.mk.injEq] at h
        obtain ⟨rfl, rfl⟩ := h
        exact firstFault_of_finish hrun hend hfinish hdeep

end FirstFault

/-- **A fault is found at the first place that cannot go on**, and what lies before it can. A source
that is refused, other than for its depth, has no fault further left. -/
theorem firstFault_of_parse {source : String} {x : SyntaxError} (h : parse source = .error x)
    (hdeep : ∀ limit, x.fault ≠ .tooDeep limit) :
    FirstFault source.toList x.fault x.position := by
  obtain ⟨l, before, after, hread, -, rfl⟩ := exists_place_of_parse h
  exact firstFault_of_readScan hread (hdeep maxDepth)

/-- A list is mixed, and behind it stands a character that no token begins with. -/
theorem firstFault_before_stray_character :
    let source := "message in [\"é\", 1] @"
    ∃ x, parse source = .error x ∧ x.fault = .mixedList ∧ x.position = 18 ∧
      FirstFault source.toList x.fault x.position := by
  intro source
  have h : parse source
      = .error ⟨.mixedList, 18, 18, "message in [\"é\", 1] @\n                 ^"⟩ :=
    eq_error_of_match (by decide +kernel)
  exact ⟨_, h, rfl, rfl, firstFault_of_parse h nofun⟩

end TraceViews.Filter
