import TraceViews.Proofs.Filter.Printing
import TraceViews.Proofs.Filter.Reader.Completeness
import TraceViews.Proofs.Filter.Reader.Soundness
import TraceViews.Proofs.Filter.Spelling

/-!
# Parsing and the grammar

A source that can be scanned to its end is parsed just as its token kinds are read
(`fault_of_parse`). With that, what a reader does on the phrases of the grammar says which sources
are filters.
-/

namespace TraceViews.Filter

/-- The expression that the tokens stand for, or the fault that a reader finds. -/
def readKinds (limit : Nat) (ts : List TokenKind) : Except Fault Measured :=
  Reader.start.feed limit ts >>= fun r => r.finish limit

/-! ## Token kinds -/

theorem derives_of_readKinds {limit : Nat} {ts : List TokenKind} {m : Measured}
    (h : readKinds limit ts = .ok m) : Stands .filter ts m.expr := by
  obtain ⟨r, hr, hm⟩ := exists_of_bind_eq_ok h
  exact Reader.stands_of_finish hr hm

theorem readKinds_of_derives {limit n : Nat} {ts : List TokenKind} {e : Expr}
    (h : Derives .filter ts e n) (hl : 0 < limit) :
    readKinds limit ts = if n ≤ limit then Measured.capped limit e else .error (.tooDeep limit) :=
  Reader.finish_of_derives h hl

/-- Tokens are read to an expression if the grammar derives it from them within the limit. -/
theorem readKinds_eq_ok_iff {limit : Nat} {ts : List TokenKind} {e : Expr} (hl : 0 < limit) :
    (∃ m, readKinds limit ts = .ok m ∧ m.expr = e)
      ↔ ∃ n, Derives .filter ts e n ∧ e.height ≤ limit ∧ n ≤ limit := by
  constructor
  · rintro ⟨m, hm, rfl⟩
    obtain ⟨n, hn⟩ := derives_of_readKinds hm
    -- the derivation that reading gives is read again, and so within the limit
    have hread := readKinds_of_derives hn hl
    rw [hm] at hread
    split at hread
    · next hle =>
      refine ⟨n, hn, Nat.le_of_not_lt fun hlt => ?_, hle⟩
      rw [Measured.capped_of_lt hlt] at hread
      cases hread
    · cases hread
  · rintro ⟨n, hn, hheight, hle⟩
    rcases Measured.capped_cases limit e with ⟨m, hm, -, hcap⟩ | ⟨hlt, -⟩
    · refine ⟨m, ?_, hm⟩
      rw [readKinds_of_derives hn hl, if_pos hle, hcap]
    · omega

theorem readKinds_eq_tooDeep {limit n : Nat} {ts : List TokenKind} {e : Expr}
    (h : Derives .filter ts e n) (hl : 0 < limit) (hdeep : limit < e.height ∨ limit < n) :
    readKinds limit ts = .error (.tooDeep limit) := by
  rw [readKinds_of_derives h hl]
  split
  · next hle => exact Measured.capped_of_lt (hdeep.resolve_right (Nat.not_lt.2 hle))
  · rfl

/-! ## Sources -/

/-- Places aside, reading tokens is reading their kinds. -/
theorem fault_of_run (limit : Nat) (r : Reader) (tokens : List Token) :
    (r.run limit tokens).mapError Located.fault = r.feed limit (tokens.map Token.kind) := by
  induction tokens generalizing r with
  | nil => rfl
  | cons t tokens ih =>
    rw [Reader.run, List.map_cons, Reader.feed_cons]
    cases r.step limit t.kind with
    | error fault => rfl
    | ok r => exact ih r

theorem fault_of_finish (x : Except Fault Measured) (position : Nat) (source : List Char) :
    ((match x with
      | .error fault => .error ⟨fault, position⟩
      | .ok m => .ok m.expr : Except Located Expr).mapError
        (SyntaxError.ofLocated source)).mapError SyntaxError.fault = x.map Measured.expr := by
  cases x <;> rfl

/-- Places aside, **parsing a source is reading its token kinds**, if it can be scanned. -/
theorem fault_of_parse {source : String} {ts : List TokenKind}
    (h : (scan source.toList).Reads ts) :
    (parse source).mapError SyntaxError.fault
      = (readKinds maxDepth ts).map Measured.expr := by
  obtain ⟨rfl, position, hend⟩ := h
  -- the places go into the error alone
  rw [parse, readKinds, readScan, ← fault_of_run, hend]
  cases Reader.start.run maxDepth (scan source.toList).tokens with
  | error l => rfl
  | ok r => exact fault_of_finish (r.finish maxDepth) position source.toList

/-- A source that is parsed has been scanned to its end. -/
theorem exists_reads_of_parse {source : String} {e : Expr} (h : parse source = .ok e) :
    ∃ ts, (scan source.toList).Reads ts := by
  refine ⟨_, rfl, ?_⟩
  cases hend : (scan source.toList).ending with
  | complete position => exact ⟨position, rfl⟩
  | broken l =>
    rw [parse, readScan, hend] at h
    cases hrun : Reader.start.run maxDepth (scan source.toList).tokens with
    | error l =>
      rw [hrun] at h
      cases h
    | ok r =>
      rw [hrun] at h
      cases h

/-- A source is parsed to an expression if its tokens are read to it. -/
theorem parse_eq_ok_iff {source : String} {e : Expr} :
    parse source = .ok e
      ↔ ∃ ts, (scan source.toList).Reads ts ∧ ∃ m, readKinds maxDepth ts = .ok m ∧ m.expr = e := by
  constructor
  · intro h
    obtain ⟨ts, hts⟩ := exists_reads_of_parse h
    refine ⟨ts, hts, ?_⟩
    have hfault := fault_of_parse hts
    rw [h] at hfault
    cases hread : readKinds maxDepth ts with
    | error fault =>
      rw [hread] at hfault
      cases hfault
    | ok m =>
      rw [hread] at hfault
      cases hfault
      exact ⟨m, rfl, rfl⟩
  · rintro ⟨ts, hts, m, hm, rfl⟩
    have hfault := fault_of_parse hts
    rw [hm] at hfault
    cases hparse : parse source with
    | error x =>
      rw [hparse] at hfault
      cases hfault
    | ok e =>
      rw [hparse] at hfault
      cases hfault
      rfl

/-- A source is refused with the fault that its tokens are. -/
theorem exists_parse_eq_error {source : String} {ts : List TokenKind} {fault : Fault}
    (hts : (scan source.toList).Reads ts) (h : readKinds maxDepth ts = .error fault) :
    ∃ x, parse source = .error x ∧ x.fault = fault := by
  have hfault := fault_of_parse hts
  rw [h] at hfault
  cases hparse : parse source with
  | error x =>
    rw [hparse] at hfault
    cases hfault
    exact ⟨x, rfl, rfl⟩
  | ok e =>
    rw [hparse] at hfault
    cases hfault

/-! ## Sources of the grammar -/

theorem maxDepth_pos : 0 < maxDepth := by decide

section Grammar

variable {source : String} {ts : List TokenKind} {e : Expr} {n : Nat}

/-- What is parsed is of the grammar, and within the limits. -/
theorem exists_derives_of_parse (h : parse source = .ok e) :
    ∃ ts n, (scan source.toList).Reads ts ∧ Derives .filter ts e n ∧
      e.height ≤ maxDepth ∧ n ≤ maxDepth := by
  obtain ⟨ts, hts, hread⟩ := parse_eq_ok_iff.1 h
  obtain ⟨n, hder, hheight, hn⟩ := (readKinds_eq_ok_iff maxDepth_pos).1 hread
  exact ⟨ts, n, hts, hder, hheight, hn⟩

/-- What is of the grammar and within the limits is parsed, -/
theorem parse_eq_ok_of_derives (hts : (scan source.toList).Reads ts) (h : Derives .filter ts e n)
    (hheight : e.height ≤ maxDepth) (hn : n ≤ maxDepth) : parse source = .ok e :=
  parse_eq_ok_iff.2 ⟨ts, hts, (readKinds_eq_ok_iff maxDepth_pos).2 ⟨n, h, hheight, hn⟩⟩

/-- and beyond them it is refused for its depth. -/
theorem exists_tooDeep_of_derives (hts : (scan source.toList).Reads ts)
    (h : Derives .filter ts e n) (hdeep : maxDepth < e.height ∨ maxDepth < n) :
    ∃ x, parse source = .error x ∧ x.fault = .tooDeep maxDepth :=
  exists_parse_eq_error hts (readKinds_eq_tooDeep h maxDepth_pos hdeep)

end Grammar

end TraceViews.Filter
