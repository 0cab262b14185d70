import TraceViews.Console.Command
import TraceViews.Proofs.Except
import TraceViews.Proofs.Text.Numerals
import TraceViews.Proofs.Text.Words

/-!
# How commands are spelled

A line spells a command if it consists of a name of the command and an argument that the command
takes, with white space between the two and around them. Main statement: a line is read as a command
exactly if it spells that command; so no line spells two, and a number that is out of range in the
place of an argument is an error (`parse_eq_ok_iff_isSpelledBy`).
-/

namespace TraceViews.Console

open Text

variable {line name : String} {verb : Verb} {argument : List Char} {c : Command}

/-! ## Spellings -/

/-- The words that name a command. -/
def Verb.names : Verb → List String
  | view => ["view"]
  | filter => ["filter"]
  | template => ["format"]
  | select => ["select"]
  | goto => ["goto"]
  | list => ["show"]
  | count => ["count"]
  | follow => ["follow"]
  | pause => ["pause"]
  | resume => ["resume"]
  | clear => ["clear"]
  | help => ["help", "?"]
  | quit => ["quit", "exit"]

/-- What may stand behind a name: nothing, or white space and an argument. -/
inductive Behind : List Char → List Char → Prop
  | nothing : Behind [] []
  | argument {gap argument : List Char} (hgap : Gap gap) (htrimmed : Trimmed argument)
      (hne : argument ≠ []) : Behind (gap ++ argument) argument

/-- A line consists of a name and an argument, which is empty if there is none. White space may
stand around them. -/
def Phrase (line name : String) (argument : List Char) : Prop :=
  ∃ front behind back, line.toList = front ++ (name.toList ++ behind) ++ back ∧ Blank front ∧
    Behind behind argument ∧ Blank back

/-- What a command takes as its argument. -/
inductive Command.Takes : Command → Verb → List Char → Prop
  | view {n : Nat} {cs : List Char} (hcs : IsCount n cs) (hn : n ≤ maxCount) :
      Takes (.view n) .view cs
  | noFilter : Takes (.filter none) .filter []
  | filter {text : List Char} (h : text ≠ []) :
      Takes (.filter (some (String.ofList text))) .filter text
  | template {text : List Char} (h : text ≠ []) :
      Takes (.template (String.ofList text)) .template text
  | select {n : Nat} {cs : List Char} (hcs : IsCount n cs) (hn : n ≤ maxCount) :
      Takes (.select n) .select cs
  | goto {t : Timestamp} {cs : List Char} (hcs : IsSigned t.toInt cs) : Takes (.goto t) .goto cs
  | listFrom {start : Nat} {cs : List Char} (hcs : IsCount start cs) (hstart : start ≤ maxCount) :
      Takes (.list start 20) .list cs
  | list {start count : Nat} {first gap second : List Char} (hfirst : IsCount start first)
      (hstart : start ≤ maxCount) (hgap : Gap gap) (hsecond : IsCount count second)
      (hcount : count ≤ maxCount) : Takes (.list start count) .list (first ++ gap ++ second)
  | follow (on : Bool) : Takes (.follow on) .follow (if on then "on" else "off").toList
  | count (text : List Char) : Takes .count .count text
  | pause (text : List Char) : Takes .pause .pause text
  | resume (text : List Char) : Takes .resume .resume text
  | clear (text : List Char) : Takes .clear .clear text
  | help (text : List Char) : Takes .help .help text
  | quit (text : List Char) : Takes .quit .quit text

/-- A line spells a command by a name of it and an argument that it takes. -/
def Command.IsSpelledBy (c : Command) (line : String) : Prop :=
  ∃ verb, ∃ name ∈ verb.names, ∃ argument, Phrase line name argument ∧ c.Takes verb argument

/-! ## Names -/

theorem ofSpelling?_eq_some_iff : Verb.ofSpelling? name = some verb ↔ name ∈ verb.names := by
  constructor
  · intro h
    have hall : ∀ p ∈ Verb.spellings, p.1 ∈ p.2.names := by decide
    obtain ⟨l₁, l₂, hspellings, -⟩ := List.lookup_eq_some_iff.1 h
    exact hall (name, verb) (by rw [hspellings]; simp)
  · have hall : ∀ s ∈ verb.names, Verb.ofSpelling? s = some verb := by
      cases verb <;> decide
    exact hall name

theorem word_of_mem_names (h : name ∈ verb.names) : Word name.toList := by
  have hall : ∀ s ∈ verb.names, Word s.toList := by
    cases verb <;> decide
  exact hall name h

/-! ## Names and arguments -/

theorem Phrase.trimmed (h : Phrase line name argument) : Trimmed argument := by
  obtain ⟨-, behind, -, -, -, hbehind, -⟩ := h
  cases hbehind with
  | nothing => exact trimmed_nil
  | argument _ htrimmed _ => exact htrimmed

/-- **A phrase is read as its name and its argument.** -/
theorem parse_of_phrase (hname : name ∈ verb.names) (h : Phrase line name argument) :
    Command.parse line = Command.ofVerb verb argument := by
  obtain ⟨front, behind, back, hline, hfront, hbehind, hback⟩ := h
  have hword := word_of_mem_names hname
  have hverb := ofSpelling?_eq_some_iff.2 hname
  cases hbehind with
  | nothing =>
    rw [List.append_nil] at hline
    rw [Command.parse, hline, trim_append hfront hword.trimmed hback, splitFirst_word hword]
    simp only [String.ofList_toList, hverb]
    rfl
  | @argument gap argument hgap htrimmed hne =>
    rw [← List.append_assoc name.toList] at hline
    obtain ⟨blank, hblank, hsplit⟩ := splitFirst_append hword hgap argument
    rw [Command.parse, hline, trim_append hfront (hword.trimmed_append htrimmed hne) hback, hsplit]
    simp only [String.ofList_toList, hverb, trim_append_left hblank htrimmed]

/-- What is read as a command is a phrase with a name of some command. -/
theorem exists_phrase (h : Command.parse line = .ok c) :
    ∃ verb : Verb, ∃ name ∈ verb.names, ∃ argument, Phrase line name argument := by
  obtain ⟨front, back, hline, hfront, htrimmed, hback⟩ := exists_append_trim line.toList
  -- the name is what is cut off the line, or the line would be no command
  have hname (word rest : List Char) (hsplit : splitFirst (trim line.toList) = (word, rest)) :
      ∃ verb, String.ofList word ∈ Verb.names verb := by
    rw [Command.parse, hsplit] at h
    cases hverb : Verb.ofSpelling? (String.ofList word) with
    | some verb => exact ⟨verb, ofSpelling?_eq_some_iff.1 hverb⟩
    | none =>
      simp only [hverb] at h
      split at h <;> cases h
  rcases htrimmed.cases with hnil | hword | ⟨word, gap, rest, hcs, hword, hgap, hrest, hne⟩
  · obtain ⟨verb, hmem⟩ := hname [] [] (by rw [hnil]; rfl)
    exact absurd rfl (word_of_mem_names hmem).1
  · obtain ⟨verb, hmem⟩ := hname _ _ (splitFirst_word hword)
    refine ⟨verb, _, hmem, [], front, [], back, ?_, hfront, .nothing, hback⟩
    rw [String.toList_ofList, List.append_nil]
    exact hline
  · obtain ⟨blank, -, hsplit⟩ := splitFirst_append hword hgap rest
    rw [← hcs] at hsplit
    obtain ⟨verb, hmem⟩ := hname _ _ hsplit
    refine ⟨verb, _, hmem, rest, front, gap ++ rest, back, ?_, hfront, .argument hgap hrest hne,
      hback⟩
    rw [String.toList_ofList, ← List.append_assoc word, ← hcs]
    exact hline

/-! ## Arguments -/

theorem readQuantity_eq_ok_iff {α : Type} {read : List Char → Except NumberFault α}
    {what : Quantity} {cs : List Char} {a : α} :
    readQuantity read what cs = .ok a ↔ cs ≠ [] ∧ read cs = .ok a := by
  rw [readQuantity]
  by_cases hcs : cs = []
  · simp [hcs]
  · cases hread : read cs <;> simp [hcs]

theorem readQuantity_readCount_eq_ok_iff {what : Quantity} {cs : List Char} {n : Nat} :
    readQuantity readCount what cs = .ok n ↔ IsCount n cs ∧ n ≤ maxCount := by
  rw [readQuantity_eq_ok_iff, readCount_eq_ok_iff, and_iff_right_iff_imp]
  exact fun h => h.1.word.1

theorem readQuantity_readInt64_eq_ok_iff {what : Quantity} {cs : List Char} {n : Int64} :
    readQuantity readInt64 what cs = .ok n ↔ IsSigned n.toInt cs := by
  rw [readQuantity_eq_ok_iff, readInt64_eq_ok_iff, and_iff_right_iff_imp]
  exact fun h => h.ne_nil

/-- A listing from a row on has the number of rows that is the default. -/
theorem listOfWords_one {first : List Char} :
    Command.listOfWords [first] = .ok c ↔
      ∃ start, (IsCount start first ∧ start ≤ maxCount) ∧ Command.list start 20 = c := by
  simp [Command.listOfWords, bind_eq_ok_iff, pure, Except.pure, defaultListCount,
    readQuantity_readCount_eq_ok_iff]

theorem listOfWords_two {first second : List Char} :
    Command.listOfWords [first, second] = .ok c ↔
      ∃ start, (IsCount start first ∧ start ≤ maxCount) ∧
        ∃ count, (IsCount count second ∧ count ≤ maxCount) ∧ Command.list start count = c := by
  simp [Command.listOfWords, bind_eq_ok_iff, readQuantity_readCount_eq_ok_iff]

theorem listOfWords_more {first second third : List Char} {more : List (List Char)} :
    Command.listOfWords (first :: second :: third :: more) ≠ .ok c := by
  simp [Command.listOfWords, bind_eq_ok_iff]

/-- A listing takes one word or two. -/
theorem takes_of_listOfWords (h : Trimmed argument)
    (hread : Command.listOfWords (words argument) = .ok c) : c.Takes .list argument := by
  rcases h.cases with rfl | hword | ⟨first, gap, rest, rfl, hfirst, hgap, hrest, hne⟩
  · cases hread
  · rw [words_word hword, listOfWords_one] at hread
    obtain ⟨start, ⟨hstart, hle⟩, rfl⟩ := hread
    exact .listFrom hstart hle
  rw [words_append_gap hfirst hgap] at hread
  rcases hrest.cases with rfl | hword | ⟨second, gap', rest, rfl, hsecond, hgap', hrest, hne'⟩
  · exact absurd rfl hne
  · rw [words_word hword, listOfWords_two] at hread
    obtain ⟨start, ⟨hstart, hle⟩, count, ⟨hcount, hle'⟩, rfl⟩ := hread
    exact .list hstart hle hgap hcount hle'
  · obtain ⟨third, more, hmore⟩ := List.exists_cons_of_ne_nil (hrest.words_ne_nil hne')
    rw [words_append_gap hsecond hgap', hmore] at hread
    exact absurd hread listOfWords_more

theorem takes_of_ofVerb (h : Trimmed argument) (hread : Command.ofVerb verb argument = .ok c) :
    c.Takes verb argument := by
  cases verb with
  | view =>
    obtain ⟨n, hn, rfl⟩ := map_eq_ok_iff.1 hread
    obtain ⟨hcs, hle⟩ := readQuantity_readCount_eq_ok_iff.1 hn
    exact .view hcs hle
  | filter =>
    rw [Command.ofVerb] at hread
    by_cases hempty : argument = []
    · subst hempty
      cases hread
      exact .noFilter
    · rw [if_neg (by simpa using hempty)] at hread
      cases hread
      exact .filter hempty
  | template =>
    rw [Command.ofVerb] at hread
    by_cases hempty : argument = []
    · subst hempty
      cases hread
    · rw [if_neg (by simpa using hempty)] at hread
      cases hread
      exact .template hempty
  | select =>
    obtain ⟨n, hn, rfl⟩ := map_eq_ok_iff.1 hread
    obtain ⟨hcs, hle⟩ := readQuantity_readCount_eq_ok_iff.1 hn
    exact .select hcs hle
  | goto =>
    obtain ⟨t, ht, rfl⟩ := map_eq_ok_iff.1 hread
    exact .goto (readQuantity_readInt64_eq_ok_iff.1 ht)
  | list => exact takes_of_listOfWords h hread
  | follow =>
    rw [Command.ofVerb] at hread
    by_cases hon : argument = "on".toList
    · rw [if_pos hon] at hread
      cases hread
      exact hon ▸ .follow true
    · rw [if_neg hon] at hread
      by_cases hoff : argument = "off".toList
      · rw [if_pos hoff] at hread
        cases hread
        exact hoff ▸ .follow false
      · rw [if_neg hoff] at hread
        cases hread
  | count | pause | resume | clear | help | quit =>
    cases hread
    constructor

theorem ofVerb_of_takes (h : c.Takes verb argument) : Command.ofVerb verb argument = .ok c := by
  cases h with
  | view hcs hn | select hcs hn =>
    exact map_eq_ok_iff.2 ⟨_, readQuantity_readCount_eq_ok_iff.2 ⟨hcs, hn⟩, rfl⟩
  | goto hcs => exact map_eq_ok_iff.2 ⟨_, readQuantity_readInt64_eq_ok_iff.2 hcs, rfl⟩
  | filter hne | template hne => rw [Command.ofVerb, if_neg (by simpa using hne)]
  | listFrom hcs hstart =>
    rw [Command.ofVerb, words_word hcs.word]
    exact listOfWords_one.2 ⟨_, ⟨hcs, hstart⟩, rfl⟩
  | list hfirst hstart hgap hsecond hcount =>
    rw [Command.ofVerb, words_append_gap hfirst.word hgap, words_word hsecond.word]
    exact listOfWords_two.2 ⟨_, ⟨hfirst, hstart⟩, _, ⟨hsecond, hcount⟩, rfl⟩
  | follow on => cases on <;> rfl
  | noFilter | count | pause | resume | clear | help | quit => rfl

/-! ## Numbers out of range -/

theorem readQuantity_of_error {α : Type} {read : List Char → Except NumberFault α}
    {what : Quantity} {cs : List Char} {cause : NumberFault} (hne : cs ≠ [])
    (h : read cs = .error cause) :
    readQuantity read what cs = .error (.invalid what (String.ofList cs) cause) := by
  rw [readQuantity, if_neg (by simpa using hne), h]

theorem readQuantity_readCount_of_lt {what : Quantity} {cs : List Char} {n : Nat}
    (hcs : IsCount n cs) (hn : maxCount < n) :
    readQuantity readCount what cs = .error (.invalid what (String.ofList cs) .tooLarge) :=
  readQuantity_of_error hcs.word.1 (readCount_of_lt hcs hn)

/-- A listing with a number out of range names that number, or an earlier one. -/
theorem listOfWords_two_of_lt {first second : List Char} {start count : Nat}
    (hfirst : IsCount start first) (hsecond : IsCount count second)
    (hout : maxCount < start ∨ maxCount < count) :
    ∃ what text, Command.listOfWords [first, second] = .error (.invalid what text .tooLarge) := by
  by_cases hstart : maxCount < start
  · refine ⟨.startRow, String.ofList first, ?_⟩
    simp only [Command.listOfWords, List.headD_cons, readQuantity_readCount_of_lt hfirst hstart]
    rfl
  · refine ⟨.rowCount, String.ofList second, ?_⟩
    have hread : readQuantity readCount .startRow first = .ok start :=
      readQuantity_readCount_eq_ok_iff.2 ⟨hfirst, Nat.le_of_not_lt hstart⟩
    have hcount := hout.resolve_left hstart
    simp only [Command.listOfWords, List.headD_cons, hread, List.getElem?_cons_succ,
      List.getElem?_cons_zero, readQuantity_readCount_of_lt hsecond hcount]
    rfl

/-! ## Lines -/

theorem parse_eq_ok_iff : Command.parse line = .ok c ↔ c.IsSpelledBy line := by
  constructor
  · intro h
    obtain ⟨verb, name, hname, argument, hphrase⟩ := exists_phrase h
    rw [parse_of_phrase hname hphrase] at h
    exact ⟨verb, name, hname, argument, hphrase, takes_of_ofVerb hphrase.trimmed h⟩
  · rintro ⟨verb, name, hname, argument, hphrase, htakes⟩
    exact (parse_of_phrase hname hphrase).trans (ofVerb_of_takes htakes)

/-- **Lines are read exactly.** A line is read as a command if it spells that command and only then,
so that no line spells two commands. A number that is out of range where a command takes a number is
an error that names it. -/
theorem parse_eq_ok_iff_isSpelledBy :
    (∀ line c, Command.parse line = .ok c ↔ c.IsSpelledBy line) ∧
    (∀ line (c c' : Command), c.IsSpelledBy line → c'.IsSpelledBy line → c = c') ∧
    (∀ line argument n, IsCount n argument → maxCount < n →
      (Phrase line "view" argument →
        Command.parse line = .error (.invalid .viewNumber (String.ofList argument) .tooLarge)) ∧
      (Phrase line "select" argument →
        Command.parse line = .error (.invalid .row (String.ofList argument) .tooLarge)) ∧
      (Phrase line "show" argument →
        Command.parse line = .error (.invalid .startRow (String.ofList argument) .tooLarge))) ∧
    (∀ line first gap second start count, IsCount start first → Gap gap → IsCount count second →
      maxCount < start ∨ maxCount < count → Phrase line "show" (first ++ gap ++ second) →
      ∃ what text, Command.parse line = .error (.invalid what text .tooLarge)) ∧
    ∀ line argument n, IsSigned n argument →
      n < Int64.minValue.toInt ∨ Int64.maxValue.toInt < n → Phrase line "goto" argument →
      Command.parse line = .error (.invalid .timestamp (String.ofList argument)
        (if 0 ≤ n then .tooLarge else .tooSmall)) := by
  refine ⟨fun _ _ => parse_eq_ok_iff, fun line c c' h h' => ?_, fun line argument n hcs hn =>
    ⟨fun hphrase => ?_, fun hphrase => ?_, fun hphrase => ?_⟩, ?_, ?_⟩
  · exact Except.ok.inj ((parse_eq_ok_iff.2 h).symm.trans (parse_eq_ok_iff.2 h'))
  · rw [parse_of_phrase (show "view" ∈ Verb.view.names by decide) hphrase, Command.ofVerb,
      readQuantity_readCount_of_lt hcs hn]
    rfl
  · rw [parse_of_phrase (show "select" ∈ Verb.select.names by decide) hphrase, Command.ofVerb,
      readQuantity_readCount_of_lt hcs hn]
    rfl
  · rw [parse_of_phrase (show "show" ∈ Verb.list.names by decide) hphrase, Command.ofVerb,
      words_word hcs.word]
    simp only [Command.listOfWords, List.headD_cons, readQuantity_readCount_of_lt hcs hn]
    rfl
  · intro line first gap second start count hfirst hgap hsecond hout hphrase
    rw [parse_of_phrase (show "show" ∈ Verb.list.names by decide) hphrase, Command.ofVerb,
      words_append_gap hfirst.word hgap, words_word hsecond.word]
    exact listOfWords_two_of_lt hfirst hsecond hout
  · intro line argument n hcs hout hphrase
    rw [parse_of_phrase (show "goto" ∈ Verb.goto.names by decide) hphrase, Command.ofVerb,
      readQuantity_of_error hcs.ne_nil (readInt64_of_lt hcs hout)]
    rfl

/-- Wide spaces, tabs, a plus sign and zeros in front, a name with other words behind it, and the
numbers next to the bounds. -/
theorem parse_spelled_lines :
    Command.parse "\u3000show\t+007 \t020 " = .ok (.list 7 20) ∧
      (∀ c : Command, c.IsSpelledBy "? quit" → c = .help) ∧
      Command.parse "view 18446744073709551616" =
        .error (.invalid .viewNumber "18446744073709551616" .tooLarge) ∧
      (∃ what text, Command.parse "show 7 +18446744073709551616" =
        .error (.invalid what text .tooLarge)) ∧
      Command.parse "goto -9223372036854775809" =
        .error (.invalid .timestamp "-9223372036854775809" .tooSmall) := by
  obtain ⟨hread, hunique, hcount, hcounts, hsigned⟩ := parse_eq_ok_iff_isSpelledBy
  -- a line without white space around it, with one space behind the name
  have hphrase (line name : String) (argument : List Char)
      (hline : line.toList = [] ++ (name.toList ++ ([' '] ++ argument)) ++ [])
      (htrimmed : Trimmed argument) (hne : argument ≠ []) : Phrase line name argument :=
    ⟨[], [' '] ++ argument, [], hline, nofun, .argument (by decide) htrimmed hne, nofun⟩
  have hseven : IsNumeral 7 ['7'] := ⟨0, rfl⟩
  have hlarge : IsNumeral 18446744073709551616 "18446744073709551616".toList := ⟨0, rfl⟩
  have hsmall : IsNumeral (-9223372036854775809 : Int).natAbs "9223372036854775809".toList :=
    ⟨0, rfl⟩
  refine ⟨(hread _ _).2 ?_, fun c hc => hunique _ _ _ hc ?_,
    (hcount _ _ _ ⟨_, hlarge, .inl rfl⟩ (by decide)).1 ?_,
    hcounts _ _ [' '] _ _ _ ⟨_, hseven, .inl rfl⟩ (by decide) ⟨_, hlarge, .inr rfl⟩ (by decide) ?_,
    hsigned _ _ (-9223372036854775809) ⟨_, hsmall, .inr ⟨by decide, rfl⟩⟩ (by decide) ?_⟩
  · have hfirst : IsCount 7 "+007".toList := ⟨_, ⟨2, rfl⟩, .inr rfl⟩
    have hsecond : IsCount 20 "020".toList := ⟨_, ⟨1, rfl⟩, .inl rfl⟩
    have hgap : Gap " \t".toList := by decide
    have hbehind : Behind (['\t'] ++ "+007 \t020".toList) "+007 \t020".toList :=
      .argument (by decide) (by decide) (by decide)
    exact ⟨.list, "show", by decide, _,
      ⟨['\u3000'], _, [' '], rfl, by decide, hbehind, by decide⟩,
      .list hfirst (by decide) hgap hsecond (by decide)⟩
  · exact ⟨.help, "?", by decide, _, hphrase _ _ "quit".toList rfl (by decide) (by decide), .help _⟩
  all_goals exact hphrase _ _ _ rfl (by decide) (by decide)

end TraceViews.Console
