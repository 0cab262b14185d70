import Mathlib.Data.List.Induction
import TraceViews.Proofs.Except
import TraceViews.Proofs.Text.Words

/-!
# Numerals

A number is written without a zero in front, unless it is zero (`head?_natDigits`). A numeral may
have more zeros in front, and a sign. Main statements: a run of digits is a numeral of its value
(`isNumeral_ofDigitChars`), and the readers of counts and of signed numbers take the numerals of the
numbers within their bounds, and nothing else (`readCount_eq_ok_iff`, `readInt64_eq_ok_iff`). A
numeral out of the bounds is refused as too large or too small (`readCount_of_lt`,
`readInt64_of_lt`), and what is written as an integer is read as that integer
(`readInt64_intDigits`).
-/

namespace TraceViews.Text

/-! ## Digits -/

theorem natDigits_of_lt {n : Nat} (h : n < 10) : natDigits n = [Nat.digitChar n] :=
  Nat.toDigits_of_lt_base h

theorem natDigits_of_le {n : Nat} (h : 10 ≤ n) :
    natDigits n = natDigits (n / 10) ++ [Nat.digitChar (n % 10)] :=
  Nat.toDigits_of_base_le (by omega) h

theorem exists_natDigits_eq_cons (n : Nat) :
    ∃ c cs, natDigits n = c :: cs ∧ c.isDigit = true := by
  obtain ⟨c, cs, hcs⟩ := List.exists_cons_of_ne_nil (natDigits_ne_nil n)
  exact ⟨c, cs, hcs, isDigit_of_mem_natDigits (n := n) (by rw [hcs]; exact .head cs)⟩

/-- A digit behind a number is added to ten times the number. -/
theorem natDigits_concat {n d : Nat} (hn : 0 < n) (hd : d < 10) :
    natDigits n ++ [Nat.digitChar d] = natDigits (10 * n + d) := by
  rw [← natDigits_of_lt hd]
  exact Nat.toDigits_append_toDigits (by omega) hn hd

theorem digitChar_toNat {c : Char} (h : c.isDigit = true) :
    Nat.digitChar (c.toNat - '0'.toNat) = c := by
  have hzero : '0'.toNat = 48 := rfl
  have hc := toNat_of_isDigit h
  rw [← Char.toNat_inj, Nat.toNat_digitChar_of_lt_ten (by omega)]
  omega

/-- **No zero in front** of the digits of a number, unless it is zero. -/
theorem head?_natDigits {n : Nat} (h : 0 < n) : (natDigits n).head? ≠ some '0' := by
  induction n using Nat.strongRecOn with
  | ind n ih =>
    by_cases hlt : n < 10
    · rw [natDigits_of_lt hlt]
      intro hzero
      have hcode := congrArg Char.toNat (Option.some.inj hzero)
      rw [Nat.toNat_digitChar_of_lt_ten hlt] at hcode
      have hzero : '0'.toNat = 48 := rfl
      omega
    · have hfront := ih (n / 10) (by omega) (by omega)
      obtain ⟨c, cs, hcs, -⟩ := exists_natDigits_eq_cons (n / 10)
      rw [hcs] at hfront
      rw [natDigits_of_le (by omega), hcs]
      exact hfront

/-! ## Numerals -/

/-- The digits of a number, with any number of zeros in front of them. -/
def IsNumeral (n : Nat) (cs : List Char) : Prop :=
  ∃ zeros, cs = List.replicate zeros '0' ++ natDigits n

theorem IsNumeral.ne_nil {n : Nat} {cs : List Char} (h : IsNumeral n cs) : cs ≠ [] := by
  obtain ⟨zeros, rfl⟩ := h
  simp [natDigits_ne_nil]

theorem IsNumeral.isDigit {n : Nat} {cs : List Char} (h : IsNumeral n cs) :
    ∀ c ∈ cs, c.isDigit = true := by
  obtain ⟨zeros, rfl⟩ := h
  intro c hc
  rcases List.mem_append.1 hc with hc | hc
  · rw [(List.mem_replicate.1 hc).2]
    rfl
  · exact isDigit_of_mem_natDigits hc

theorem IsNumeral.word {n : Nat} {cs : List Char} (h : IsNumeral n cs) : Word cs := by
  refine ⟨h.ne_nil, fun c hc => ?_⟩
  have := toNat_of_isDigit (h.isDigit c hc)
  exact isBlank_eq_false (by omega) (by omega)

theorem IsNumeral.ne_cons {n : Nat} {cs : List Char} {c : Char} (h : IsNumeral n cs)
    (hc : c.isDigit = false) (rest : List Char) : cs ≠ c :: rest := by
  rintro rfl
  cases hc.symm.trans (h.isDigit c List.mem_cons_self)

theorem IsNumeral.ofDigitChars {n : Nat} {cs : List Char} (h : IsNumeral n cs) :
    Nat.ofDigitChars 10 cs 0 = n := by
  obtain ⟨zeros, rfl⟩ := h
  rw [Nat.ofDigitChars_append, Nat.ofDigitChars_replicate_zero, Nat.mul_zero]
  exact Nat.ofDigitChars_ten_toDigits

/-- **Digits are a numeral** of the number that they give. -/
theorem isNumeral_ofDigitChars {cs : List Char} (hne : cs ≠ [])
    (h : ∀ c ∈ cs, c.isDigit = true) : IsNumeral (Nat.ofDigitChars 10 cs 0) cs := by
  induction cs using List.reverseRecOn with
  | nil => exact absurd rfl hne
  | append_singleton cs c ih =>
    obtain ⟨hcs, hc⟩ := List.forall_mem_append.1 h
    have hc := List.forall_mem_singleton.1 hc
    have hcode := toNat_of_isDigit hc
    have hzero : '0'.toNat = 48 := rfl
    have hd : c.toNat - '0'.toNat < 10 := by omega
    rw [Nat.ofDigitChars_append, Nat.ofDigitChars_cons, Nat.ofDigitChars_nil]
    by_cases hempty : cs = []
    · refine ⟨0, ?_⟩
      rw [hempty, Nat.ofDigitChars_nil, Nat.mul_zero, Nat.zero_add, natDigits_of_lt hd,
        digitChar_toNat hc]
      rfl
    · obtain ⟨zeros, hzeros⟩ := ih hempty hcs
      by_cases hvalue : Nat.ofDigitChars 10 cs 0 = 0
      · -- so far there have been zeros alone, and they all stand in front of the last digit
        refine ⟨zeros + 1, ?_⟩
        rw [hvalue, Nat.mul_zero, Nat.zero_add, natDigits_of_lt hd, digitChar_toNat hc]
        rw [hvalue] at hzeros
        rw [hzeros, List.replicate_succ']
        rfl
      · refine ⟨zeros, ?_⟩
        rw [← natDigits_concat (by omega) hd, digitChar_toNat hc, ← List.append_assoc, ← hzeros]

theorem readMagnitude_eq_ok_iff {limit n : Nat} (overflow : NumberFault) {cs : List Char} :
    readMagnitude limit overflow cs = .ok n ↔ IsNumeral n cs ∧ n ≤ limit := by
  rw [readMagnitude]
  by_cases hempty : cs = []
  · subst hempty
    simp only [List.isEmpty_nil, if_true]
    constructor
    · intro h
      cases h
    · intro h
      exact absurd rfl h.1.ne_nil
  · rw [if_neg (by simpa using hempty), readDigits_eq_ok_iff overflow (Nat.zero_le limit)]
    constructor
    · rintro ⟨hdigits, rfl, hle⟩
      exact ⟨isNumeral_ofDigitChars hempty hdigits, hle⟩
    · rintro ⟨hnumeral, hle⟩
      exact ⟨hnumeral.isDigit, hnumeral.ofDigitChars.symm, hle⟩

/-- Digits of a number above the limit go over it at some digit. -/
theorem readDigits_of_lt {limit : Nat} (overflow : NumberFault) {cs : List Char} {value : Nat}
    (hvalue : value ≤ limit) (hd : ∀ c ∈ cs, c.isDigit = true)
    (hlt : limit < Nat.ofDigitChars 10 cs value) :
    readDigits limit overflow value cs = .error overflow := by
  induction cs generalizing value with
  | nil =>
    rw [Nat.ofDigitChars_nil] at hlt
    omega
  | cons c cs ih =>
    obtain ⟨hc, hcs⟩ := List.forall_mem_cons.1 hd
    rw [Nat.ofDigitChars_cons, Nat.mul_comm] at hlt
    rw [readDigits, digit?_of_isDigit hc]
    by_cases hread : value * 10 + (c.toNat - '0'.toNat) ≤ limit
    · exact (if_pos hread).trans (ih hread hcs hlt)
    · exact if_neg hread

theorem readMagnitude_of_lt {limit n : Nat} (overflow : NumberFault) {cs : List Char}
    (hcs : IsNumeral n cs) (hlt : limit < n) :
    readMagnitude limit overflow cs = .error overflow := by
  rw [readMagnitude, if_neg (by simpa using hcs.ne_nil)]
  refine readDigits_of_lt overflow (Nat.zero_le limit) hcs.isDigit ?_
  rwa [hcs.ofDigitChars]

/-! ## Numerals with a sign -/

/-- A count as it may be written: with or without a plus sign. -/
def IsCount (n : Nat) (cs : List Char) : Prop :=
  ∃ digits, IsNumeral n digits ∧ (cs = digits ∨ cs = '+' :: digits)

/-- A signed number as it may be written: one that is not negative with or without a plus sign, and
one that is not positive with a minus sign. -/
def IsSigned (n : Int) (cs : List Char) : Prop :=
  ∃ digits, IsNumeral n.natAbs digits ∧
    (0 ≤ n ∧ (cs = digits ∨ cs = '+' :: digits) ∨ n ≤ 0 ∧ cs = '-' :: digits)

/-- A count has no white space. -/
theorem IsCount.word {n : Nat} {cs : List Char} (h : IsCount n cs) : Word cs := by
  obtain ⟨digits, hdigits, rfl | rfl⟩ := h
  · exact hdigits.word
  · exact ⟨nofun, List.forall_mem_cons.2 ⟨by decide, hdigits.word.2⟩⟩

theorem IsSigned.ne_nil {n : Int} {cs : List Char} (h : IsSigned n cs) : cs ≠ [] := by
  obtain ⟨digits, hdigits, ⟨-, rfl | rfl⟩ | ⟨-, rfl⟩⟩ := h
  · exact hdigits.ne_nil
  · nofun
  · nofun

/-- **A count is read** where a numeral within the bound is written, and nowhere else. -/
theorem readCount_eq_ok_iff {n : Nat} {cs : List Char} :
    readCount cs = .ok n ↔ IsCount n cs ∧ n ≤ maxCount := by
  rw [readCount.eq_def]
  split
  case h_1 =>
    constructor
    · intro h
      cases h
    · rintro ⟨hcount, -⟩
      exact absurd rfl hcount.word.1
  case h_2 cs =>
    rw [readMagnitude_eq_ok_iff]
    constructor
    · rintro ⟨hdigits, hle⟩
      exact ⟨⟨cs, hdigits, .inr rfl⟩, hle⟩
    · rintro ⟨⟨digits, hdigits, rfl | heq⟩, hle⟩
      · exact absurd rfl (hdigits.ne_cons rfl cs)
      · cases heq
        exact ⟨hdigits, hle⟩
  case h_3 hnil hplus =>
    rw [readMagnitude_eq_ok_iff]
    constructor
    · rintro ⟨hdigits, hle⟩
      exact ⟨⟨cs, hdigits, .inl rfl⟩, hle⟩
    · rintro ⟨⟨digits, hdigits, rfl | rfl⟩, hle⟩
      · exact ⟨hdigits, hle⟩
      · exact absurd rfl (hplus digits)

/-- A count is read as the digits that it starts with or has behind a plus sign. -/
theorem IsCount.readCount_eq {n : Nat} {cs : List Char} (h : IsCount n cs) :
    ∃ digits, IsNumeral n digits ∧ readCount cs = readMagnitude maxCount .tooLarge digits := by
  obtain ⟨digits, hdigits, rfl | rfl⟩ := h
  · refine ⟨cs, hdigits, ?_⟩
    rw [readCount]
    · exact hdigits.ne_nil
    · exact hdigits.ne_cons rfl
  · exact ⟨digits, hdigits, rfl⟩

/-- **A count above the bound** is too large. -/
theorem readCount_of_lt {n : Nat} {cs : List Char} (h : IsCount n cs) (hlt : maxCount < n) :
    readCount cs = .error .tooLarge := by
  obtain ⟨digits, hdigits, hread⟩ := h.readCount_eq
  rw [hread, readMagnitude_of_lt _ hdigits hlt]

theorem map_readMagnitude_eq_ok_iff {limit : Nat} (overflow : NumberFault) {cs : List Char}
    {f : Int → Int64} {n : Int64} :
    ((readMagnitude limit overflow cs).map fun k => f k) = .ok n ↔
      ∃ k : Nat, IsNumeral k cs ∧ k ≤ limit ∧ f k = n := by
  simp only [← and_assoc, ← readMagnitude_eq_ok_iff overflow]
  cases readMagnitude limit overflow cs with
  | error e => simp [Except.map, bind, Except.bind]
  | ok k => simp [Except.map, bind, Except.bind, pure, Except.pure]

/-- What is read without a minus sign is a number that is not negative. -/
theorem map_ofInt_eq_ok_iff {n : Int64} {cs : List Char} :
    ((readMagnitude maxInt64 .tooLarge cs).map fun k => Int64.ofInt k) = .ok n ↔
      IsNumeral n.toInt.natAbs cs ∧ 0 ≤ n.toInt := by
  have hmax : maxInt64 = 2 ^ 63 - 1 := rfl
  have hlt := n.toInt_lt
  rw [map_readMagnitude_eq_ok_iff]
  constructor
  · rintro ⟨k, hnumeral, hle, rfl⟩
    rw [Int64.toInt_ofInt_of_le (by omega) (by omega)]
    exact ⟨hnumeral, Int.natCast_nonneg k⟩
  · rintro ⟨hnumeral, hnonneg⟩
    refine ⟨n.toInt.natAbs, hnumeral, by omega, ?_⟩
    rw [Int.natAbs_of_nonneg hnonneg, Int64.ofInt_toInt]

/-- What is read behind a minus sign is a number that is not positive. -/
theorem map_ofInt_neg_eq_ok_iff {n : Int64} {cs : List Char} :
    ((readMagnitude (maxInt64 + 1) .tooSmall cs).map fun k => Int64.ofInt (-k)) = .ok n ↔
      IsNumeral n.toInt.natAbs cs ∧ n.toInt ≤ 0 := by
  have hmax : maxInt64 = 2 ^ 63 - 1 := rfl
  have hge := n.le_toInt
  rw [map_readMagnitude_eq_ok_iff _ (f := fun k => Int64.ofInt (-k))]
  constructor
  · rintro ⟨k, hnumeral, hle, rfl⟩
    rw [Int64.toInt_ofInt_of_le (by omega) (by omega), Int.natAbs_neg]
    exact ⟨hnumeral, by omega⟩
  · rintro ⟨hnumeral, hnonpos⟩
    refine ⟨n.toInt.natAbs, hnumeral, by omega, ?_⟩
    rw [Int.ofNat_natAbs_of_nonpos hnonpos, Int.neg_neg, Int64.ofInt_toInt]

/-- **A signed number of 64 bits is read** where a numeral of it is written, and nowhere else. -/
theorem readInt64_eq_ok_iff {n : Int64} {cs : List Char} :
    readInt64 cs = .ok n ↔ IsSigned n.toInt cs := by
  rw [readInt64.eq_def]
  split
  case h_1 =>
    constructor
    · intro h
      cases h
    · intro h
      exact absurd rfl h.ne_nil
  case h_2 cs =>
    rw [map_ofInt_neg_eq_ok_iff]
    constructor
    · rintro ⟨hdigits, hnonpos⟩
      exact ⟨cs, hdigits, .inr ⟨hnonpos, rfl⟩⟩
    · rintro ⟨digits, hdigits, ⟨-, rfl | heq⟩ | ⟨hnonpos, heq⟩⟩
      · exact absurd rfl (hdigits.ne_cons rfl cs)
      · cases heq
      · cases heq
        exact ⟨hdigits, hnonpos⟩
  case h_3 cs =>
    rw [map_ofInt_eq_ok_iff]
    constructor
    · rintro ⟨hdigits, hnonneg⟩
      exact ⟨cs, hdigits, .inl ⟨hnonneg, .inr rfl⟩⟩
    · rintro ⟨digits, hdigits, ⟨hnonneg, rfl | heq⟩ | ⟨-, heq⟩⟩
      · exact absurd rfl (hdigits.ne_cons rfl cs)
      · cases heq
        exact ⟨hdigits, hnonneg⟩
      · cases heq
  case h_4 hnil hminus hplus =>
    rw [map_ofInt_eq_ok_iff]
    constructor
    · rintro ⟨hdigits, hnonneg⟩
      exact ⟨cs, hdigits, .inl ⟨hnonneg, .inl rfl⟩⟩
    · rintro ⟨digits, hdigits, ⟨hnonneg, rfl | rfl⟩ | ⟨-, rfl⟩⟩
      · exact ⟨hdigits, hnonneg⟩
      · exact absurd rfl (hplus digits)
      · exact absurd rfl (hminus digits)

/-- **A number out of 64 bits** is too large or too small. -/
theorem readInt64_of_lt {n : Int} {cs : List Char} (h : IsSigned n cs)
    (hout : n < Int64.minValue.toInt ∨ Int64.maxValue.toInt < n) :
    readInt64 cs = .error (if 0 ≤ n then .tooLarge else .tooSmall) := by
  have hlow : Int64.minValue.toInt = -2 ^ 63 := rfl
  have hhigh : Int64.maxValue.toInt = 2 ^ 63 - 1 := rfl
  have hmax : maxInt64 = 2 ^ 63 - 1 := rfl
  obtain ⟨digits, hdigits, ⟨hsign, rfl | rfl⟩ | ⟨hsign, rfl⟩⟩ := h
  · rw [readInt64, readMagnitude_of_lt _ hdigits (by omega), if_pos hsign]
    · rfl
    · exact hdigits.ne_nil
    · exact hdigits.ne_cons rfl
    · exact hdigits.ne_cons rfl
  · rw [readInt64, readMagnitude_of_lt _ hdigits (by omega), if_pos hsign]
    rfl
  · rw [readInt64, readMagnitude_of_lt _ hdigits (by omega), if_neg (by omega)]
    rfl

/-- An integer is written as a numeral of it. -/
theorem isSigned_intDigits (n : Int) : IsSigned n (intDigits n) := by
  cases n with
  | ofNat k => exact ⟨natDigits k, ⟨0, rfl⟩, .inl ⟨Int.natCast_nonneg k, .inl rfl⟩⟩
  | negSucc k =>
    have hneg : Int.negSucc k ≤ 0 := Int.le_of_lt (Int.negSucc_lt_zero k)
    exact ⟨natDigits (k + 1), ⟨0, rfl⟩, .inr ⟨hneg, rfl⟩⟩

/-- **Writing and reading an integer** of 64 bits gives it back. -/
theorem readInt64_intDigits (n : Int64) : readInt64 (intDigits n.toInt) = .ok n :=
  readInt64_eq_ok_iff.2 (isSigned_intDigits n.toInt)

end TraceViews.Text
