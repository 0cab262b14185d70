import TraceViews.Text.Number
import TraceViews.Text.Quoted

/-!
# Reading what has been written

Digits are read as their number, within a limit, and a text that has been written between quotes
ends at the closing one. A run of characters of one class ends where another class begins.
-/

namespace TraceViews.Text

/-! ## Classes of characters -/

theorem toNat_of_isDigit {c : Char} (h : c.isDigit = true) : 48 ≤ c.toNat ∧ c.toNat ≤ 57 := by
  rw [Char.isDigit, Bool.and_eq_true, decide_eq_true_iff, decide_eq_true_iff] at h
  exact h

theorem toNat_of_isWordStart {c : Char} (h : isWordStart c = true) :
    (65 ≤ c.toNat ∧ c.toNat ≤ 90) ∨ c.toNat = 95 ∨ (97 ≤ c.toNat ∧ c.toNat ≤ 122) := by
  have hcases : ((c.isUpper || c.isLower) || c == '_') = true := h
  rw [Bool.or_eq_true, Bool.or_eq_true] at hcases
  rcases hcases with (hupper | hlower) | hunderscore
  · have hbounds : c.val ≥ 'A'.val ∧ c.val ≤ 'Z'.val := of_decide_eq_true hupper
    exact .inl hbounds
  · have hbounds : (decide (c.val ≥ 'a'.val) && decide (c.val ≤ 'z'.val)) = true := hlower
    rw [Bool.and_eq_true, decide_eq_true_iff, decide_eq_true_iff] at hbounds
    exact .inr (.inr hbounds)
  · rw [eq_of_beq hunderscore]
    exact .inr (.inl rfl)

theorem toNat_of_isBlank {c : Char} (h : isBlank c = true) : c.toNat ≤ 32 ∨ 133 ≤ c.toNat := by
  have hranges : ∀ range ∈ blankRanges, range.2 ≤ 32 ∨ 133 ≤ range.1 := by decide
  obtain ⟨range, hmem, hin⟩ := List.any_eq_true.1 h
  rw [Bool.and_eq_true, decide_eq_true_iff, decide_eq_true_iff] at hin
  have := hranges range hmem
  omega

/-- A visible ASCII character is not white space. -/
theorem isBlank_eq_false {c : Char} (h : 33 ≤ c.toNat) (h' : c.toNat ≤ 126) :
    isBlank c = false := by
  rw [Bool.eq_false_iff]
  intro hc
  have := toNat_of_isBlank hc
  omega

theorem isWordChar_of_isDigit {c : Char} (h : c.isDigit = true) : isWordChar c = true := by
  rw [isWordChar, Char.isAlphanum, h, Bool.or_true, Bool.true_or]

/-! ## Runs of a class -/

theorem of_mem_takeWhile {p : Char → Bool} {cs : List Char} : ∀ c ∈ cs.takeWhile p, p c = true :=
  List.all_eq_true.1 List.all_takeWhile

/-- Behind a run of characters of one class stands none of that class. -/
theorem head?_dropWhile_eq_false (p : Char → Bool) (cs : List Char) :
    ∀ c ∈ (cs.dropWhile p).head?, p c = false := by
  intro c hc
  have hhead := List.head?_dropWhile_not p cs
  rw [Option.mem_def.1 hc] at hhead
  simpa using hhead

/-- A run of characters of one class ends where a character of another class follows. -/
theorem takeWhile_append_stop {p : Char → Bool} {cs rest : List Char} (hcs : ∀ c ∈ cs, p c = true)
    (hrest : ∀ c ∈ rest.head?, p c = false) :
    (cs ++ rest).takeWhile p = cs ∧ (cs ++ rest).dropWhile p = rest := by
  rw [List.takeWhile_append_of_pos hcs, List.dropWhile_append_of_pos hcs]
  cases rest with
  | nil => exact ⟨List.append_nil cs, rfl⟩
  | cons c rest =>
    have hc := Bool.eq_false_iff.1 (hrest c rfl)
    rw [List.takeWhile_cons_of_neg hc, List.dropWhile_cons_of_neg hc]
    exact ⟨List.append_nil cs, rfl⟩

theorem takeWhile_append_cons {p : Char → Bool} {cs : List Char} (hcs : ∀ c ∈ cs, p c = true)
    {c : Char} (hc : p c = false) (rest : List Char) :
    (cs ++ c :: rest).takeWhile p = cs ∧ (cs ++ c :: rest).dropWhile p = c :: rest :=
  takeWhile_append_stop hcs (by rintro _ ⟨⟩; exact hc)

/-! ## Integers -/

theorem digit?_of_isDigit {c : Char} (h : c.isDigit = true) :
    digit? c = some (c.toNat - '0'.toNat) := by
  rw [digit?, if_pos h]

/-- A number is at least as large as what its first digits give. -/
theorem le_ofDigitChars (cs : List Char) (value : Nat) : value ≤ Nat.ofDigitChars 10 cs value := by
  induction cs generalizing value with
  | nil => exact Nat.le_of_eq Nat.ofDigitChars_nil.symm
  | cons c cs ih =>
    rw [Nat.ofDigitChars_cons]
    have := ih (10 * value + (c.toNat - '0'.toNat))
    omega

/-- Digits within the limit read as their number. -/
theorem readDigits_eq_ok {limit : Nat} (overflow : NumberFault) {cs : List Char} {value : Nat}
    (hd : ∀ c ∈ cs, c.isDigit = true) (hle : Nat.ofDigitChars 10 cs value ≤ limit) :
    readDigits limit overflow value cs = .ok (Nat.ofDigitChars 10 cs value) := by
  induction cs generalizing value with
  | nil => rfl
  | cons c cs ih =>
    obtain ⟨hc, hcs⟩ := List.forall_mem_cons.1 hd
    rw [Nat.ofDigitChars_cons, Nat.mul_comm] at hle ⊢
    -- the digits behind only add to what has been read, so that is within the limit too
    have hread := Nat.le_trans (le_ofDigitChars cs _) hle
    rw [readDigits, digit?_of_isDigit hc]
    exact (if_pos hread).trans (ih hcs hle)

/-- Digits are read within the limit, and nothing else is. -/
theorem readDigits_eq_ok_iff {limit : Nat} (overflow : NumberFault) {cs : List Char}
    {value n : Nat} (hvalue : value ≤ limit) :
    readDigits limit overflow value cs = .ok n ↔
      (∀ c ∈ cs, c.isDigit = true) ∧ n = Nat.ofDigitChars 10 cs value ∧ n ≤ limit := by
  constructor
  · intro h
    induction cs generalizing value with
    | nil =>
      cases h
      exact ⟨nofun, Nat.ofDigitChars_nil.symm, hvalue⟩
    | cons c cs ih =>
      rw [readDigits, digit?] at h
      by_cases hc : c.isDigit = true
      · simp only [if_pos hc] at h
        split at h
        · next hread =>
          obtain ⟨hcs, rfl, hle⟩ := ih hread h
          refine ⟨List.forall_mem_cons.2 ⟨hc, hcs⟩, ?_, hle⟩
          rw [Nat.ofDigitChars_cons, Nat.mul_comm]
        · cases h
      · simp [if_neg hc] at h
  · rintro ⟨hcs, rfl, hle⟩
    exact readDigits_eq_ok overflow hcs hle

theorem isDigit_of_mem_natDigits {n : Nat} {c : Char} (h : c ∈ natDigits n) :
    c.isDigit = true :=
  Nat.isDigit_of_mem_toDigits (by omega) (by omega) h

theorem natDigits_ne_nil (n : Nat) : natDigits n ≠ [] := Nat.toDigits_ne_nil

/-! ## Quoted text -/

namespace Quoted

theorem close?_encodeChar_append (c : Char) (cs : List Char) :
    close? (encodeChar c ++ cs)
      = (close? cs).map fun parts => (encodeChar c ++ parts.1, parts.2) := by
  rw [encodeChar.eq_def]
  split
  · rfl
  · rfl
  · rfl
  · rfl
  · rfl
  · next hquote hslash _ _ _ =>
    rw [List.singleton_append, close?.eq_def]
    simp only [if_neg hquote, if_neg hslash, List.singleton_append]

/-- A text between quotes ends where it has been closed. -/
theorem close?_encode (cs rest : List Char) :
    close? (encode cs ++ '"' :: rest) = some (encode cs, rest) := by
  induction cs with
  | nil =>
    rw [encode, List.flatMap_nil, List.nil_append, close?.eq_def]
    exact if_pos rfl
  | cons c cs ih =>
    rw [encode, List.flatMap_cons, List.append_assoc, close?_encodeChar_append]
    rw [encode] at ih
    rw [ih]
    rfl

/-- A quote that closes a text closes it whatever comes behind. -/
theorem close?_append {cs inside rest : List Char} (h : close? cs = some (inside, rest))
    (ds : List Char) : close? (cs ++ ds) = some (inside, rest ++ ds) := by
  fun_induction close? cs generalizing inside rest with
  | case1 => cases h
  | case2 cs =>
    cases h
    rw [List.cons_append, close?.eq_def]
    exact if_pos rfl
  | case3 => cases h
  | case4 d ds' hquote ih =>
    obtain ⟨parts, hparts, heq⟩ := Option.map_eq_some_iff.1 h
    cases heq
    rw [List.cons_append, List.cons_append, close?.eq_def]
    simp only [if_neg hquote, if_true, ih hparts, Option.map_some]
  | case5 c cs hquote hslash ih =>
    obtain ⟨parts, hparts, heq⟩ := Option.map_eq_some_iff.1 h
    cases heq
    rw [List.cons_append, close?.eq_def]
    simp only [if_neg hquote, if_neg hslash, ih hparts, Option.map_some]

end Quoted

end TraceViews.Text
