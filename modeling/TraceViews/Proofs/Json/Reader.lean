import TraceViews.Json
import TraceViews.Proofs.Text.Numerals

/-!
# Reading JSON text

A reader of JSON text, as far as values are integers, strings and objects. White space may stand
between the parts of a text, a string may write a character with any escape for it, and an integer
has no zero in front. Main statements: the text of every value reads back as that value
(`ofText?_render`), and it has no control character (`printable_write`).
-/

namespace TraceViews.Json

open Text

/-! ## The reader -/

/-- White space between the parts of a text. -/
def isSpace (c : Char) : Bool := c == ' ' || c == '\t' || c == '\n' || c == '\r'

/-- The text behind white space. -/
def skipSpace (cs : List Char) : List Char := cs.dropWhile isSpace

/-- The value of a hexadecimal digit, in upper or lower case. -/
def hexValue? (c : Char) : Option Nat :=
  if c.isDigit then some (c.toNat - '0'.toNat)
  else if 'a' ≤ c ∧ c ≤ 'f' then some (c.toNat - 'a'.toNat + 10)
  else if 'A' ≤ c ∧ c ≤ 'F' then some (c.toNat - 'A'.toNat + 10)
  else none

/-- The character of a code in hexadecimal digits; a half of a surrogate pair is no character. -/
def ofHexDigits? (cs : List Char) : Option Char := do
  let values ← cs.mapM hexValue?
  let code := values.foldl (fun n d => 16 * n + d) 0
  if code.isValidChar then some (Char.ofNat code) else none

/-- The character that a backslash and another character stand for. -/
def unescape? : Char → Option Char
  | '"' => some '"'
  | '\\' => some '\\'
  | '/' => some '/'
  | 'b' => some '\x08'
  | 'f' => some '\x0c'
  | 'n' => some '\n'
  | 'r' => some '\r'
  | 't' => some '\t'
  | _ => none

/-- Reads a string behind its opening quote up to the closing one; gives the string and the rest.
Control characters stand in a string only as escapes. -/
def readString : List Char → Option (List Char × List Char)
  | [] => none
  | '"' :: rest => some ([], rest)
  | '\\' :: 'u' :: c₁ :: c₂ :: c₃ :: c₄ :: cs => do
    let c ← ofHexDigits? [c₁, c₂, c₃, c₄]
    let (s, rest) ← readString cs
    return (c :: s, rest)
  | '\\' :: c :: cs => do
    let c ← unescape? c
    let (s, rest) ← readString cs
    return (c :: s, rest)
  | c :: cs =>
    if c = '\\' ∨ c.toNat < 0x20 then none
    else (readString cs).map fun (s, rest) => (c :: s, rest)

/-- Reads a number without a sign: digits, of which the first is zero only if there is no other one.
A fraction or an exponent is no part of an integer. -/
def readNatural (cs : List Char) : Option (Nat × List Char) :=
  let digits := cs.takeWhile Char.isDigit
  let rest := cs.dropWhile Char.isDigit
  if digits = [] ∨ (digits.head? = some '0' ∧ digits ≠ ['0']) ∨
      rest.head?.any (['.', 'e', 'E'].contains ·) then none
  else some (Nat.ofDigitChars 10 digits 0, rest)

/-- Reads an integer. -/
def readInteger : List Char → Option (Int × List Char)
  | '-' :: cs => (readNatural cs).map fun (n, rest) => (-n, rest)
  | cs => (readNatural cs).map fun (n, rest) => (n, rest)

/-- Reads a key and the colon behind it. -/
def readKey (cs : List Char) : Option (String × List Char) :=
  match skipSpace cs with
  | '"' :: cs => do
    let (key, cs) ← readString cs
    match skipSpace cs with
    | ':' :: rest => some (String.ofList key, rest)
    | _ => none
  | _ => none

mutual

/-- Reads a value in at most `limit` steps. -/
def readValue : Nat → List Char → Option (Json × List Char)
  | 0, _ => none
  | limit + 1, cs =>
    match skipSpace cs with
    | '"' :: cs => (readString cs).map fun (s, rest) => (text (String.ofList s), rest)
    | '\x7b' :: cs =>
      match skipSpace cs with
      | '\x7d' :: rest => some (object [], rest)
      | cs => (readMembers limit cs).map fun (members, rest) => (object members, rest)
    | cs => (readInteger cs).map fun (n, rest) => (integer n, rest)

/-- Reads the members of an object, of which there is at least one, and the closing brace. -/
def readMembers : Nat → List Char → Option (List (String × Json) × List Char)
  | 0, _ => none
  | limit + 1, cs => do
    let (key, cs) ← readKey cs
    let (value, cs) ← readValue limit cs
    match skipSpace cs with
    | ',' :: cs => (readMembers limit cs).map fun (members, rest) => ((key, value) :: members, rest)
    | '\x7d' :: rest => some ([(key, value)], rest)
    | _ => none

end

/-- The value that a text stands for. Each step of the reader takes at least one character. -/
def ofText? (text : String) : Option Json :=
  match readValue (text.length + 1) text.toList with
  | some (value, rest) => if skipSpace rest = [] then some value else none
  | none => none

/-! ## Strings -/

theorem hexValue?_hexDigit (n : Nat) : hexValue? (hexDigit n) = some (n % 16) := by
  have hall : ∀ d : Fin 16, hexValue? (Nat.digitChar d) = some d.val := by decide
  exact hall ⟨n % 16, Nat.mod_lt n (by decide)⟩

/-- The hexadecimal digits of a control character are those of its code. -/
theorem ofHexDigits?_of_lt {c : Char} (h : c.toNat < 0x20) :
    ofHexDigits? ['0', '0', hexDigit (c.toNat / 16), hexDigit c.toNat] = some c := by
  have hzero : hexValue? '0' = some 0 := rfl
  have hcode : 16 * (c.toNat / 16 % 16) + c.toNat % 16 = c.toNat := by omega
  have hvalid : c.toNat.isValidChar := c.valid
  simp [ofHexDigits?, hzero, hexValue?_hexDigit, hcode, hvalid]

theorem readString_escape {c d : Char} (h : unescape? c = some d) (cs : List Char) :
    readString ('\\' :: c :: cs) = (readString cs).map fun (s, rest) => (d :: s, rest) := by
  rw [readString]
  · rw [h]
    cases readString cs <;> rfl
  · rintro c₁ c₂ c₃ c₄ cs' rfl
    cases h

theorem readString_plain {c : Char} (hquote : c ≠ '"') (hslash : c ≠ '\\')
    (hcontrol : ¬ c.toNat < 0x20) (cs : List Char) :
    readString (c :: cs) = (readString cs).map fun (s, rest) => (c :: s, rest) := by
  rw [readString]
  · rw [if_neg (not_or.2 ⟨hslash, hcontrol⟩)]
  · exact hquote
  · intro c₁ c₂ c₃ c₄ cs' h
    exact absurd h hslash
  · intro c' cs' h
    exact absurd h hslash

/-- **A character of a string** is read as it stands there. -/
theorem readString_escapeChar_append (c : Char) (cs : List Char) :
    readString (escapeChar c ++ cs) = (readString cs).map fun (s, rest) => (c :: s, rest) := by
  rw [escapeChar.eq_def]
  split
  case h_8 hquote hslash _ _ _ _ _ =>
    by_cases hcontrol : c.toNat < 0x20
    · rw [if_pos hcontrol]
      show readString ('\\' :: 'u' :: '0' :: '0' :: _ :: _ :: cs) = _
      rw [readString, ofHexDigits?_of_lt hcontrol]
      cases readString cs <;> rfl
    · rw [if_neg hcontrol]
      exact readString_plain hquote hslash hcontrol cs
  all_goals exact readString_escape rfl cs

theorem readString_append (s rest : List Char) :
    readString (s.flatMap escapeChar ++ '"' :: rest) = some (s, rest) := by
  induction s with
  | nil => rfl
  | cons c s ih =>
    rw [List.flatMap_cons, List.append_assoc, readString_escapeChar_append, ih]
    rfl

/-! ## Integers -/

/-- What may follow a value: nothing that goes on with a number. -/
def Ends (rest : List Char) : Prop :=
  ∀ c ∈ rest.head?, c.isDigit = false ∧ ['.', 'e', 'E'].contains c = false

theorem ends_cons {c : Char} (hdigit : c.isDigit = false)
    (hmore : ['.', 'e', 'E'].contains c = false) (rest : List Char) : Ends (c :: rest) := by
  rintro _ ⟨⟩
  exact ⟨hdigit, hmore⟩

theorem readNatural_append (n : Nat) {rest : List Char} (h : Ends rest) :
    readNatural (natDigits n ++ rest) = some (n, rest) := by
  obtain ⟨htake, hdrop⟩ := takeWhile_append_stop (fun c => isDigit_of_mem_natDigits (n := n))
    fun c hc => (h c hc).1
  have hmore : rest.head?.any (['.', 'e', 'E'].contains ·) = false := by
    cases rest with
    | nil => rfl
    | cons c rest => exact (h c rfl).2
  have hfront : ¬ ((natDigits n).head? = some '0' ∧ natDigits n ≠ ['0']) := by
    rintro ⟨hzero, hne⟩
    by_cases hn : n = 0
    · rw [hn] at hne
      exact hne rfl
    · exact head?_natDigits (by omega) hzero
  simp only [readNatural, htake, hdrop, natDigits_ne_nil, hfront, hmore, Bool.false_eq_true,
    or_self, if_false]
  rw [natDigits, Nat.ofDigitChars_ten_toDigits]

theorem readInteger_append (n : Int) {rest : List Char} (h : Ends rest) :
    readInteger (intDigits n ++ rest) = some (n, rest) := by
  cases n with
  | ofNat k =>
    rw [intDigits, readInteger, readNatural_append k h]
    · rfl
    · intro cs heq
      obtain ⟨c, ds, hds, hc⟩ := exists_natDigits_eq_cons k
      rw [hds] at heq
      cases heq
      cases hc
  | negSucc k =>
    rw [intDigits, List.cons_append, readInteger, readNatural_append _ h]
    rfl

/-! ## Values -/

/-- What holds of an object if it holds of the values of its members holds of all values. -/
@[elab_as_elim]
theorem induction {P : Json → Prop} (integer : ∀ n, P (integer n)) (text : ∀ s, P (text s))
    (object : ∀ members, (∀ m ∈ members, P m.2) → P (object members)) (v : Json) : P v :=
  match v with
  | .integer n => integer n
  | .text s => text s
  | .object members => object members fun m _ => induction integer text object m.2
termination_by sizeOf v
decreasing_by
  have hm := List.sizeOf_lt_of_mem ‹m ∈ members›
  obtain ⟨key, value⟩ := m
  simp only [Prod.mk.sizeOf_spec, Json.object.sizeOf_spec] at hm ⊢
  omega

theorem skipSpace_cons {c : Char} (h : isSpace c = false) (cs : List Char) :
    skipSpace (c :: cs) = c :: cs :=
  List.dropWhile_cons_of_neg (Bool.eq_false_iff.1 h)

theorem quote_append (s : String) (rest : List Char) :
    quote s ++ rest = '"' :: (s.toList.flatMap escapeChar ++ '"' :: rest) := by
  simp [quote]

theorem readKey_quote (key : String) (rest : List Char) :
    readKey (quote key ++ ':' :: rest) = some (key, rest) := by
  rw [quote_append, readKey, skipSpace_cons rfl]
  simp only [readString_append, Option.bind_eq_bind, Option.bind_some, String.ofList_toList]
  rw [skipSpace_cons rfl]
  rfl

/-- The value is read back where nothing follows that could go on with it. -/
def ReadsBack (v : Json) : Prop :=
  ∀ limit rest, v.write.length ≤ limit → Ends rest →
    readValue limit (v.write ++ rest) = some (v, rest)

theorem readsBack_text (s : String) : (text s).ReadsBack := by
  intro limit rest hlimit _
  cases limit with
  | zero => cases hlimit
  | succ limit =>
    rw [write, quote_append, readValue, skipSpace_cons rfl]
    simp only [readString_append, String.ofList_toList, Option.map_some]

/-- An integer begins with a character that begins neither a string nor an object. -/
theorem exists_intDigits_eq_cons (n : Int) :
    ∃ c cs, intDigits n = c :: cs ∧ isSpace c = false ∧ c ≠ '"' ∧ c ≠ '\x7b' := by
  cases n with
  | ofNat k =>
    obtain ⟨c, cs, hcs, hc⟩ := exists_natDigits_eq_cons k
    refine ⟨c, cs, hcs, ?_, ?_, ?_⟩
    · rw [Bool.eq_false_iff]
      intro hspace
      simp only [isSpace, Bool.or_eq_true, beq_iff_eq] at hspace
      rcases hspace with ((rfl | rfl) | rfl) | rfl <;> cases hc
    · rintro rfl
      cases hc
    · rintro rfl
      cases hc
  | negSucc k => exact ⟨'-', natDigits (k + 1), rfl, rfl, by decide, by decide⟩

theorem readsBack_integer (n : Int) : (integer n).ReadsBack := by
  intro limit rest hlimit hrest
  have hread := readInteger_append n hrest
  obtain ⟨c, cs, hcs, hspace, hquote, hbrace⟩ := exists_intDigits_eq_cons n
  rw [write] at hlimit ⊢
  rw [hcs] at hread hlimit ⊢
  cases limit with
  | zero => cases hlimit
  | succ limit =>
    rw [List.cons_append, readValue, skipSpace_cons hspace]
    split
    · next heq => exact absurd (List.cons.inj heq).1 hquote
    · next heq => exact absurd (List.cons.inj heq).1 hbrace
    · rw [← List.cons_append, hread]
      rfl

/-- A member is read, and then it is seen whether there are more. -/
theorem readMembers_member {key : String} {value : Json} (hvalue : value.ReadsBack) {limit : Nat}
    (hlimit : value.write.length ≤ limit) {rest : List Char} (hrest : Ends rest) :
    readMembers (limit + 1) (writeMember (key, value) ++ rest) =
      match skipSpace rest with
      | ',' :: cs =>
        (readMembers limit cs).map fun (members, rest) => ((key, value) :: members, rest)
      | '\x7d' :: rest => some ([(key, value)], rest)
      | _ => none := by
  rw [writeMember, List.append_assoc, List.cons_append, readMembers, readKey_quote]
  simp only [Option.bind_eq_bind, Option.bind_some, hvalue limit rest hlimit hrest]

theorem writeMembers_cons (m m' : String × Json) (members : List (String × Json)) :
    writeMembers (m :: m' :: members) = writeMember m ++ ',' :: writeMembers (m' :: members) := by
  rw [writeMembers]
  nofun

theorem length_write_lt (key : String) (value : Json) :
    value.write.length < (writeMember (key, value)).length := by
  rw [writeMember, List.length_append, List.length_cons]
  omega

theorem readMembers_append {members : List (String × Json)}
    (hvalues : ∀ m ∈ members, m.2.ReadsBack) (hne : members ≠ []) {limit : Nat}
    (hlimit : (writeMembers members).length ≤ limit) (rest : List Char) :
    readMembers limit (writeMembers members ++ '\x7d' :: rest) = some (members, rest) := by
  induction members generalizing limit with
  | nil => exact absurd rfl hne
  | cons m members ih =>
    obtain ⟨key, value⟩ := m
    have hvalue : value.ReadsBack := hvalues (key, value) List.mem_cons_self
    have hlength := length_write_lt key value
    cases members with
    | nil =>
      rw [writeMembers] at hlimit ⊢
      obtain ⟨limit, rfl⟩ := Nat.exists_eq_succ_of_ne_zero (n := limit) (by omega)
      rw [readMembers_member hvalue (by omega) (ends_cons rfl rfl rest), skipSpace_cons rfl]
      rfl
    | cons m' members =>
      rw [writeMembers_cons, List.length_append, List.length_cons] at hlimit
      obtain ⟨limit, rfl⟩ := Nat.exists_eq_succ_of_ne_zero (n := limit) (by omega)
      have hmore : readMembers limit (writeMembers (m' :: members) ++ '\x7d' :: rest) =
          some (m' :: members, rest) :=
        ih (List.forall_mem_cons.1 hvalues).2 nofun (by omega)
      rw [writeMembers_cons, List.append_assoc, List.cons_append,
        readMembers_member hvalue (by omega) (ends_cons rfl rfl _), skipSpace_cons rfl]
      simp only [hmore, Option.map_some]

/-- An object with members goes on with the quote of the first key. -/
theorem exists_writeMembers_append (m : String × Json) (members : List (String × Json))
    (rest : List Char) : ∃ cs, writeMembers (m :: members) ++ rest = '"' :: cs := by
  obtain ⟨key, value⟩ := m
  cases members with
  | nil => exact ⟨_, by rw [writeMembers, writeMember, List.append_assoc, quote_append]⟩
  | cons m' members =>
    exact ⟨_, by rw [writeMembers_cons, writeMember, List.append_assoc, List.append_assoc,
      quote_append]⟩

theorem readsBack_object {members : List (String × Json)}
    (hvalues : ∀ m ∈ members, m.2.ReadsBack) : (object members).ReadsBack := by
  intro limit rest hlimit _
  rw [write] at hlimit ⊢
  simp only [List.cons_append, List.length_append, List.length_cons, List.length_nil] at hlimit
  obtain ⟨limit, rfl⟩ := Nat.exists_eq_succ_of_ne_zero (n := limit) (by omega)
  rw [List.cons_append, List.cons_append, List.append_assoc, List.singleton_append, readValue,
    skipSpace_cons rfl]
  cases members with
  | nil =>
    rw [writeMembers]
    rfl
  | cons m members =>
    have hread : readMembers limit (writeMembers (m :: members) ++ '\x7d' :: rest) =
        some (m :: members, rest) :=
      readMembers_append hvalues nofun (by omega) rest
    obtain ⟨cs, hcs⟩ := exists_writeMembers_append m members ('\x7d' :: rest)
    rw [hcs] at hread ⊢
    show (readMembers limit ('"' :: cs)).map _ = _
    rw [hread]
    rfl

/-- **What is written is read back.** -/
theorem readsBack (v : Json) : v.ReadsBack := by
  induction v using induction with
  | integer n => exact readsBack_integer n
  | text s => exact readsBack_text s
  | object members ih => exact readsBack_object ih

/-- **The text of a value stands for that value.** -/
theorem ofText?_render (v : Json) : ofText? v.render = some v := by
  have hread := v.readsBack (v.write.length + 1) [] (by omega) nofun
  rw [List.append_nil] at hread
  simp [ofText?, render, hread, skipSpace]

-- a value is also read from texts with more white space and with other escapes
example : ofText? " \x7b \"a\\/\\u0041\" : -10 , \"b\":\x7b \x7d \x7d\n" =
    some (object [("a/A", integer (-10)), ("b", object [])]) := by
  cbv

/-! ## Characters -/

/-- A text without control characters; it stands on one line. -/
def Printable (cs : List Char) : Prop := ∀ c ∈ cs, 0x20 ≤ c.toNat

instance : DecidablePred Printable := fun cs =>
  List.decidableBAll (fun c : Char => 0x20 ≤ c.toNat) cs

theorem printable_append {cs ds : List Char} (hcs : Printable cs) (hds : Printable ds) :
    Printable (cs ++ ds) :=
  List.forall_mem_append.2 ⟨hcs, hds⟩

theorem printable_cons {c : Char} (hc : 0x20 ≤ c.toNat) {cs : List Char} (hcs : Printable cs) :
    Printable (c :: cs) :=
  List.forall_mem_cons.2 ⟨hc, hcs⟩

theorem toNat_hexDigit (n : Nat) : 0x20 ≤ (hexDigit n).toNat := by
  have hall : ∀ d : Fin 16, 0x20 ≤ (Nat.digitChar d).toNat := by decide
  exact hall ⟨n % 16, Nat.mod_lt n (by decide)⟩

/-- **No control character stands for itself** in a string. -/
theorem printable_escapeChar (c : Char) : Printable (escapeChar c) := by
  rw [escapeChar.eq_def]
  split
  case h_8 =>
    by_cases hcontrol : c.toNat < 0x20
    · rw [if_pos hcontrol]
      have hfront : Printable ['\\', 'u', '0', '0'] := by decide
      exact printable_append hfront
        (printable_cons (toNat_hexDigit _) (printable_cons (toNat_hexDigit _) nofun))
    · rw [if_neg hcontrol]
      exact printable_cons (by omega) nofun
  all_goals decide

theorem printable_quote (s : String) : Printable (quote s) := by
  refine printable_cons (by decide) (printable_append ?_ (by decide))
  intro c hc
  obtain ⟨d, -, hd⟩ := List.mem_flatMap.1 hc
  exact printable_escapeChar d c hd

theorem printable_intDigits (n : Int) : Printable (intDigits n) := by
  have hdigits : ∀ k, Printable (natDigits k) := by
    intro k c hc
    have := toNat_of_isDigit (isDigit_of_mem_natDigits hc)
    omega
  cases n with
  | ofNat k => exact hdigits k
  | negSucc k => exact printable_cons (by decide) (hdigits (k + 1))

theorem printable_writeMembers {members : List (String × Json)}
    (h : ∀ m ∈ members, Printable m.2.write) : Printable (writeMembers members) := by
  have hmember : ∀ m ∈ members, Printable (writeMember m) := by
    rintro ⟨key, value⟩ hm
    rw [writeMember]
    exact printable_append (printable_quote key) (printable_cons (by decide) (h _ hm))
  clear h
  induction members with
  | nil =>
    rw [writeMembers]
    nofun
  | cons m members ih =>
    obtain ⟨hm, hmembers⟩ := List.forall_mem_cons.1 hmember
    cases members with
    | nil =>
      rw [writeMembers]
      exact hm
    | cons m' members =>
      rw [writeMembers_cons]
      exact printable_append hm (printable_cons (by decide) (ih hmembers))

/-- **The text of a value has no control characters.** -/
theorem printable_write (v : Json) : Printable v.write := by
  induction v using induction with
  | integer n =>
    rw [write]
    exact printable_intDigits n
  | text s =>
    rw [write]
    exact printable_quote s
  | object members ih =>
    rw [write]
    exact printable_cons (by decide)
      (printable_append (printable_writeMembers ih) (by decide))

end TraceViews.Json
