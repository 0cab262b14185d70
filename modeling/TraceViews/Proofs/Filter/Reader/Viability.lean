import TraceViews.Proofs.Filter.Reader.Completeness
import TraceViews.Proofs.Filter.Reader.Limits
import TraceViews.Proofs.Filter.Reader.Soundness

/-!
# Viable beginnings

Tokens are a viable beginning if some filter begins with them. What a reader has read is one: the
beginning of a comparison can be completed, and every open parenthesis can be closed
(`viable_of_feed`). Where it refuses a token, though, no filter goes on with that
(`not_viable_of_step`), and where it does not end, no filter ends (`not_stands_of_finish`).
-/

namespace TraceViews.Filter

/-- Some filter begins with the tokens, however deep it nests. -/
def Viable (ts : List TokenKind) : Prop := ∃ us e, Stands .filter (ts ++ us) e

/-! ## Completing what was read -/

theorem DerivesComparison.stands {ts : List TokenKind} {c : Comparison}
    (h : DerivesComparison ts c) : Stands .operand ts (.test c) :=
  ⟨0, .test h⟩

/-- Every beginning of an operand can be completed. -/
theorem Phase.Holds.exists_operand {ps : List TokenKind} {p : Phase} (h : p.Holds ps) :
    ∃ us e, Stands .operand (ps ++ us) e := by
  cases h with
  | operand => exact ⟨_, _, (DerivesComparison.eqText "module" "").stands⟩
  | relation name => exact ⟨[.keyword .eq, .text ""], _, (DerivesComparison.eqText name "").stands⟩
  | literal name => exact ⟨[.text ""], _, (DerivesComparison.eqText name "").stands⟩
  | needle name => exact ⟨[.text ""], _, (DerivesComparison.contains name "").stands⟩
  | list name =>
    exact ⟨[.mark .openBracket, .mark .closeBracket], _, (DerivesComparison.within name .none).stands⟩
  | firstItem name => exact ⟨[.mark .closeBracket], _, (DerivesComparison.within name .none).stands⟩
  | textItem name hi hne =>
    have hmore := (DerivesComparison.within name (hi.concat_text (by simpa using hne) "")).stands
    exact ⟨[.text "", .mark .closeBracket], _, by simpa using hmore⟩
  | numberItem name hi =>
    have hmore := (DerivesComparison.within name (hi.concat_number 0)).stands
    exact ⟨[.number 0, .mark .closeBracket], _, by simpa using hmore⟩
  | textEnd name hi hne => exact ⟨[.mark .closeBracket], _, (DerivesComparison.within name hi).stands⟩
  | numberEnd name hi => exact ⟨[.mark .closeBracket], _, (DerivesComparison.within name hi).stands⟩
  | junction hm => exact ⟨[], _, by rwa [List.append_nil]⟩

/-- The parentheses that are open around a disjunction can be closed. -/
theorem OuterHolds.exists_disjunction {os us : List TokenKind} {o : List Level} {e : Expr}
    (h : OuterHolds os o) (he : Stands .disjunction us e) :
    ∃ vs f, Stands .disjunction (os ++ us ++ vs) f := by
  -- from the inside out: a closed parenthesis is an operand of the level around it
  induction h generalizing us e with
  | nil => exact ⟨[], e, by rwa [List.append_nil]⟩
  | cons h hl ih =>
    obtain ⟨n, hn⟩ := he
    have hgroup : Stands .operand (.mark .openParen :: us ++ [.mark .closeParen]) e :=
      ⟨n + 1, .group hn⟩
    obtain ⟨vs, f, hf⟩ := ih (hl.disjunction hgroup)
    exact ⟨.mark .closeParen :: vs, f, by simpa using hf⟩

namespace Reader

variable {limit : Nat} {r : Reader} {ts : List TokenKind}

/-- What a state stands for can be completed. -/
theorem Holds.viable (h : Holds ts r) : Viable ts := by
  obtain ⟨hf, ho, hl, hp⟩ := h
  obtain ⟨us, e, he⟩ := hp.exists_operand
  obtain ⟨vs, f, hf'⟩ := ho.exists_disjunction (hl.disjunction he)
  exact ⟨us ++ vs, _, by simpa using hf.filter hf'⟩

/-- **What has been read is a viable beginning.** -/
theorem viable_of_feed (h : start.feed limit ts = .ok r) : Viable ts :=
  (holds_start.feed h).viable

/-! ## Where reading ends -/

/-- Under a limit that is great enough a filter is read to its end. -/
theorem exists_finish_of_stands {e : Expr} (limit : Nat) (h : Stands .filter ts e) :
    ∃ limit' r w, limit ≤ limit' ∧ start.feed limit' ts = .ok r ∧ r.finish limit' = .ok w := by
  obtain ⟨n, hn⟩ := h
  let limit' := max limit (max n e.height)
  have hpos : 0 < limit' := Nat.lt_of_lt_of_le e.height_pos (by omega)
  have hread := finish_of_derives hn hpos
  rw [if_pos (by omega)] at hread
  rcases Measured.capped_cases limit' e with ⟨w, -, -, hw⟩ | ⟨hlt, -⟩
  · obtain ⟨r, hr, hfinish⟩ := exists_of_bind_eq_ok (hread.trans hw)
    exact ⟨limit', r, w, Nat.le_max_left .., hr, hfinish⟩
  · omega

/-- **No filter goes on with a token that is refused.** -/
theorem not_viable_of_step {t : TokenKind} {fault : Fault} (h : start.feed limit ts = .ok r)
    (hstep : r.step limit t = .error fault) (hfault : fault ≠ .tooDeep limit) :
    ¬ Viable (ts ++ [t]) := by
  rintro ⟨us, e, he⟩
  obtain ⟨limit', r', w, hle, hfeed, -⟩ := exists_finish_of_stands limit he
  -- under the greater limit the token would have been read, but it is refused there as well
  rw [List.append_assoc, feed_append, (relaxes_feed hle start ts).eq_ok h] at hfeed
  have hstep' := (relaxes_step hle r t).eq_error hstep hfault
  have hrefused : feed limit' r ([t] ++ us) = .error fault := by
    rw [List.singleton_append, feed_cons, hstep']
    rfl
  cases hrefused.symm.trans hfeed

/-- **No filter ends where a reader does not.** -/
theorem not_stands_of_finish {fault : Fault} (h : start.feed limit ts = .ok r)
    (hfinish : r.finish limit = .error fault) (hfault : fault ≠ .tooDeep limit) (e : Expr) :
    ¬ Stands .filter ts e := by
  intro he
  obtain ⟨limit', r', w, hle, hfeed, hw⟩ := exists_finish_of_stands limit he
  cases hfeed.symm.trans ((relaxes_feed hle start ts).eq_ok h)
  cases hw.symm.trans ((relaxes_finish hle r).eq_error hfinish hfault)

end Reader

end TraceViews.Filter
