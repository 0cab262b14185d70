import Mathlib.Data.List.Basic
import Mathlib.Data.List.TakeWhile
import TraceViews.Proofs.Text.ReadBack
import TraceViews.Text.Blank

/-!
# Words and white space

A text is white space around a trimmed one (`exists_append_trim`), and a trimmed text is empty, a
word, or a word with white space and another trimmed text behind it (`Trimmed.cases`). Main
statements: trimming and cutting take such texts apart into the same parts (`trim_append`,
`splitFirst_append`), and so does the list of words (`words_append_gap`).
-/

namespace TraceViews.Text

variable {cs front word gap rest back : List Char}

/-- White space alone. -/
def Blank (cs : List Char) : Prop := ∀ c ∈ cs, isBlank c = true

/-- White space that keeps two words apart. -/
def Gap (cs : List Char) : Prop := cs ≠ [] ∧ Blank cs

/-- Characters without white space. -/
def Word (cs : List Char) : Prop := cs ≠ [] ∧ ∀ c ∈ cs, isBlank c = false

/-- White space neither at the beginning nor at the end. -/
def Trimmed (cs : List Char) : Prop :=
  (∀ c ∈ cs.head?, isBlank c = false) ∧ ∀ c ∈ cs.getLast?, isBlank c = false

-- the characters of a text are looked at, and not all characters that there are
instance : DecidablePred Blank := fun cs => List.decidableBAll (isBlank · = true) cs

instance : DecidablePred Gap := fun cs => inferInstanceAs (Decidable (cs ≠ [] ∧ Blank cs))

instance : DecidablePred Word := fun cs =>
  have := List.decidableBAll (isBlank · = false) cs
  inferInstanceAs (Decidable (cs ≠ [] ∧ ∀ c ∈ cs, isBlank c = false))

instance : DecidablePred Trimmed := fun cs =>
  have (end? : Option Char) : Decidable (∀ c ∈ end?, isBlank c = false) :=
    Option.decidableForallMem end?
  inferInstanceAs (Decidable
    ((∀ c ∈ cs.head?, isBlank c = false) ∧ ∀ c ∈ cs.getLast?, isBlank c = false))

theorem Gap.exists_cons (h : Gap gap) : ∃ c cs, gap = c :: cs ∧ isBlank c = true ∧ Blank cs := by
  obtain ⟨c, cs, rfl⟩ := List.exists_cons_of_ne_nil h.1
  exact ⟨c, cs, rfl, List.forall_mem_cons.1 h.2⟩

theorem Word.trimmed (h : Word cs) : Trimmed cs :=
  ⟨fun c hc => h.2 c (List.mem_of_mem_head? hc), fun c hc => h.2 c (List.mem_of_mem_getLast? hc)⟩

theorem trimmed_nil : Trimmed [] := ⟨nofun, nofun⟩

/-- A text that goes from a word to a trimmed text is trimmed. -/
theorem Word.trimmed_append (hword : Word word) (hrest : Trimmed rest) (hne : rest ≠ []) :
    Trimmed (word ++ gap ++ rest) := by
  constructor
  · rw [List.append_assoc, List.head?_append_of_ne_nil _ hword.1]
    exact hword.trimmed.1
  · rw [List.getLast?_append_of_ne_nil _ hne]
    exact hrest.2

/-! ## Trimming -/

theorem dropWhile_append_of_head? (hfront : Blank front) (h : ∀ c ∈ cs.head?, isBlank c = false) :
    (front ++ cs).dropWhile isBlank = cs :=
  (takeWhile_append_stop hfront h).2

/-- **Trimming takes the white space off,** and nothing else. -/
theorem trim_append (hfront : Blank front) (hcs : Trimmed cs) (hback : Blank back) :
    trim (front ++ cs ++ back) = cs := by
  by_cases hempty : cs = []
  · have hblank : Blank (front ++ back) := List.forall_mem_append.2 ⟨hfront, hback⟩
    have hdrop : (front ++ back).dropWhile isBlank = [] := List.dropWhile_eq_nil_iff.2 hblank
    rw [hempty, List.append_nil, trim, hdrop]
    rfl
  · have hhead : ∀ c ∈ (cs ++ back).head?, isBlank c = false := by
      rw [List.head?_append_of_ne_nil _ hempty]
      exact hcs.1
    have hlast : ∀ c ∈ cs.reverse.head?, isBlank c = false := by
      rw [List.head?_reverse]
      exact hcs.2
    have hreverse : Blank back.reverse := fun c hc => hback c (List.mem_reverse.1 hc)
    rw [List.append_assoc, trim, dropWhile_append_of_head? hfront hhead, trimEnd,
      List.reverse_append, dropWhile_append_of_head? hreverse hlast, List.reverse_reverse]

theorem trim_append_left (hfront : Blank front) (hcs : Trimmed cs) : trim (front ++ cs) = cs := by
  rw [← List.append_nil (front ++ cs)]
  exact trim_append hfront hcs nofun

/-- The characters at the front that are dropped, and what is left. -/
theorem exists_append_dropWhile (cs : List Char) :
    ∃ front, cs = front ++ cs.dropWhile isBlank ∧ Blank front ∧
      ∀ c ∈ (cs.dropWhile isBlank).head?, isBlank c = false :=
  ⟨cs.takeWhile isBlank, List.takeWhile_append_dropWhile.symm, of_mem_takeWhile, fun c hc => by
    have hhead := List.head?_dropWhile_not isBlank cs
    rw [Option.mem_def.1 hc] at hhead
    simpa using hhead⟩

/-- **Every text is a trimmed one** with white space around it. -/
theorem exists_append_trim (cs : List Char) :
    ∃ front back, cs = front ++ trim cs ++ back ∧ Blank front ∧ Trimmed (trim cs) ∧
      Blank back := by
  obtain ⟨front, hcs, hfront, hhead⟩ := exists_append_dropWhile cs
  -- the end of the text is the beginning of the text read backwards
  obtain ⟨back, hback, hblank, hlast⟩ :=
    exists_append_dropWhile (cs.dropWhile isBlank).reverse
  have hcut : cs.dropWhile isBlank = trim cs ++ back.reverse := by
    rw [trim, trimEnd, ← List.reverse_append, ← hback, List.reverse_reverse]
  refine ⟨front, back.reverse, ?_, hfront, ⟨?_, ?_⟩, fun c hc => hblank c (List.mem_reverse.1 hc)⟩
  · rw [List.append_assoc, ← hcut]
    exact hcs
  · intro c hc
    refine hhead c ?_
    rw [hcut]
    exact List.mem_head?_append_of_mem_head? hc
  · rw [trim, trimEnd, List.getLast?_reverse]
    exact hlast

/-! ## The first word -/

/-- A text without white space, and a rest that is empty or begins with white space. -/
theorem exists_append_blank (cs : List Char) :
    ∃ word rest, cs = word ++ rest ∧ (∀ c ∈ word, isBlank c = false) ∧
      ∀ c ∈ rest.head?, isBlank c = true :=
  ⟨cs.takeWhile (!isBlank ·), cs.dropWhile (!isBlank ·),
    List.takeWhile_append_dropWhile.symm, fun c hc => by simpa using of_mem_takeWhile c hc,
    fun c hc => by
      have hhead := List.head?_dropWhile_not (!isBlank ·) cs
      rw [Option.mem_def.1 hc] at hhead
      simpa using hhead⟩

/-- **A trimmed text is empty, a word, or a word with more behind it.** -/
theorem Trimmed.cases (h : Trimmed cs) :
    cs = [] ∨ Word cs ∨ ∃ word gap rest, cs = word ++ gap ++ rest ∧ Word word ∧ Gap gap ∧
      Trimmed rest ∧ rest ≠ [] := by
  by_cases hempty : cs = []
  · exact .inl hempty
  obtain ⟨word, more, rfl, hword, hmore⟩ := exists_append_blank cs
  have hne : word ≠ [] := by
    rintro rfl
    obtain ⟨c, more, rfl⟩ := List.exists_cons_of_ne_nil hempty
    cases (h.1 c rfl).symm.trans (hmore c rfl)
  cases more with
  | nil =>
    rw [List.append_nil]
    exact .inr (.inl ⟨hne, hword⟩)
  | cons c more =>
    obtain ⟨front, hfront, hblank, hhead⟩ := exists_append_dropWhile more
    have hgap : Blank (c :: front) := List.forall_mem_cons.2 ⟨hmore c rfl, hblank⟩
    have hlast : ∀ d ∈ (c :: more).getLast?, isBlank d = false := by
      rw [← List.getLast?_append_of_ne_nil word (List.cons_ne_nil c more)]
      exact h.2
    rw [hfront, ← List.cons_append] at hlast
    have hrest : more.dropWhile isBlank ≠ [] := by
      intro hnil
      rw [hnil, List.append_nil] at hlast
      have hmem := List.getLast_mem (List.cons_ne_nil c front)
      cases (hlast _ (List.getLast?_eq_some_getLast _)).symm.trans (hgap _ hmem)
    rw [List.getLast?_append_of_ne_nil _ hrest] at hlast
    refine .inr (.inr ⟨word, c :: front, _, ?_, ⟨hne, hword⟩, ⟨List.cons_ne_nil c front, hgap⟩,
      ⟨hhead, hlast⟩, hrest⟩)
    rw [List.append_assoc, List.cons_append, ← hfront]

theorem splitFirst_word (h : Word cs) : splitFirst cs = (cs, []) := by
  have hcs : ∀ c ∈ cs, (!isBlank c) = true := fun c hc => by simp [h.2 c hc]
  have hdrop : cs.dropWhile (!isBlank ·) = [] := List.dropWhile_eq_nil_iff.2 hcs
  rw [splitFirst, List.takeWhile_eq_self_iff.2 hcs, hdrop]
  rfl

/-- **A text is cut behind its first word,** and of the white space there one character is lost. -/
theorem splitFirst_append (hword : Word word) (hgap : Gap gap) (rest : List Char) :
    ∃ blank, Blank blank ∧ splitFirst (word ++ gap ++ rest) = (word, blank ++ rest) := by
  obtain ⟨c, blank, rfl, hc, hblank⟩ := hgap.exists_cons
  obtain ⟨htake, hdrop⟩ := takeWhile_append_cons (p := (!isBlank ·))
    (fun d hd => by simp [hword.2 d hd]) (c := c) (by simp [hc]) (blank ++ rest)
  refine ⟨blank, hblank, ?_⟩
  rw [List.append_assoc, List.cons_append, splitFirst, htake, hdrop]
  rfl

/-! ## All words -/

theorem words_cons_of_blank {c : Char} (hc : isBlank c = true) (cs : List Char) :
    words (c :: cs) = words cs := by
  simp [words, hc]

theorem words_append_of_blank (hgap : Blank gap) : words (gap ++ rest) = words rest := by
  induction gap with
  | nil => rfl
  | cons c gap ih =>
    obtain ⟨hc, hgap⟩ := List.forall_mem_cons.1 hgap
    rw [List.cons_append, words_cons_of_blank hc, ih hgap]

theorem words_append_stop (hword : Word word) (hrest : ∀ c ∈ rest.head?, isBlank c = true) :
    words (word ++ rest) = word :: words rest := by
  obtain ⟨hne, hword⟩ := hword
  induction word with
  | nil => exact absurd rfl hne
  | cons c word ih =>
    obtain ⟨hc, hword⟩ := List.forall_mem_cons.1 hword
    have hc := Bool.eq_false_iff.1 hc
    cases word with
    | nil =>
      cases rest with
      | nil => simp [words, hc]
      | cons d rest => simp [words, hc, hrest d rfl]
    | cons d word =>
      have hd := Bool.eq_false_iff.1 (hword d List.mem_cons_self)
      have hwords := ih nofun hword
      rw [List.cons_append, List.cons_append, words.eq_def]
      simp only [if_neg hc, if_neg hd]
      rw [← List.cons_append, hwords]

theorem words_word (h : Word cs) : words cs = [cs] := by
  have hwords : words (cs ++ []) = cs :: words [] := words_append_stop h (by simp)
  rwa [List.append_nil] at hwords

/-- **The words of a text** are the first one and those behind the white space there. -/
theorem words_append_gap (hword : Word word) (hgap : Gap gap) :
    words (word ++ gap ++ rest) = word :: words rest := by
  obtain ⟨c, blank, rfl, hc, hblank⟩ := hgap.exists_cons
  have hstop : ∀ d ∈ (c :: blank ++ rest).head?, isBlank d = true := by
    rintro _ ⟨⟩
    exact hc
  rw [List.append_assoc, words_append_stop hword hstop,
    words_append_of_blank (List.forall_mem_cons.2 ⟨hc, hblank⟩)]

theorem Trimmed.words_ne_nil (h : Trimmed cs) (hne : cs ≠ []) : words cs ≠ [] := by
  rcases h.cases with hnil | hword | ⟨word, gap, rest, rfl, hword, hgap, -, -⟩
  · exact absurd hnil hne
  · rw [words_word hword]
    nofun
  · rw [words_append_gap hword hgap]
    nofun

end TraceViews.Text
