import TraceViews.Filter.SyntaxError

/-!
# From source text to tokens

`scan` cuts a source into tokens. Tokens are read from left to right, each as long as its class
allows, and white space between them is dropped. What follows the last token is either the end of
the source or a fault at the first character where no token can be read.
-/

namespace TraceViews.Filter

/-- What stands behind the last token: the end of the source, or a fault. -/
inductive Ending where
  | complete (position : Nat)
  | broken (l : Located)
  deriving DecidableEq, Repr

/-- The tokens of a source, as far as they can be read. -/
structure Scan where
  tokens : List Token
  ending : Ending
  deriving DecidableEq, Repr

namespace Scan

/-- Puts a token in front. -/
def cons (t : Token) (s : Scan) : Scan := { s with tokens := t :: s.tokens }

end Scan

/-- A token's kind, the characters that spell it, and what follows them. -/
structure Lexeme where
  kind : TokenKind
  chars : List Char
  rest : List Char

/-- A character that begins a number: an ASCII digit or a sign. -/
def isNumberStart (c : Char) : Bool := c.isDigit || c == '-' || c == '+'

/-- Reads the token that begins with `c`, which is not white space, and goes on in `cs`. -/
def readLexeme (c : Char) (cs : List Char) : Except Fault Lexeme :=
  match Mark.ofChar? c with
  | some m => .ok ⟨.mark m, [c], cs⟩
  | none =>
    if c = '"' then
      match Text.Quoted.close? cs with
      | none => .error .unterminatedString
      | some (inside, rest) =>
        .ok ⟨.text (String.ofList (Text.Quoted.decode inside)), '"' :: inside ++ ['"'], rest⟩
    else if isNumberStart c then
      let chars := c :: cs.takeWhile Char.isDigit
      match Text.readInt64 chars with
      | .ok n => .ok ⟨.number n, chars, cs.dropWhile Char.isDigit⟩
      | .error _ => .error (.invalidNumber chars)
    else if Text.isWordStart c then
      let chars := c :: cs.takeWhile Text.isWordChar
      .ok ⟨.ofWord (String.ofList chars), chars, cs.dropWhile Text.isWordChar⟩
    else .error (.invalidCharacter c)

/-- The characters of a lexeme and the rest make up the text. -/
theorem chars_append_rest {c : Char} {cs : List Char} {l : Lexeme}
    (h : readLexeme c cs = .ok l) : l.chars ++ l.rest = c :: cs := by
  simp only [readLexeme] at h
  split at h
  · cases h; simp
  · split at h
    · rename_i hc
      split at h
      · simp at h
      · rename_i hclose
        cases h
        simp [Text.Quoted.eq_of_close? hclose, hc]
    · split at h
      · split at h
        · cases h; simp [List.takeWhile_append_dropWhile]
        · simp at h
      · split at h
        · cases h; simp [List.takeWhile_append_dropWhile]
        · simp at h

/-- A lexeme begins with the character it was read at. -/
theorem exists_chars_eq_cons {c : Char} {cs : List Char} {l : Lexeme}
    (h : readLexeme c cs = .ok l) : ∃ more, l.chars = c :: more := by
  simp only [readLexeme] at h
  split at h
  · cases h; exact ⟨[], rfl⟩
  · split at h
    · rename_i hc
      split at h
      · simp at h
      · cases h; simp [hc]
    · split at h
      · split at h
        · cases h; exact ⟨_, rfl⟩
        · simp at h
      · split at h
        · cases h; exact ⟨_, rfl⟩
        · simp at h

/-- Reading a lexeme leaves no more than what followed its first character. -/
theorem length_rest_le {c : Char} {cs : List Char} {l : Lexeme} (h : readLexeme c cs = .ok l) :
    l.rest.length ≤ cs.length := by
  obtain ⟨more, hm⟩ := exists_chars_eq_cons h
  have hl := congrArg List.length (chars_append_rest h)
  simp [hm] at hl
  omega

/-- The tokens of a text that begins at byte position `position` of the source. -/
def scanFrom (position : Nat) (cs : List Char) : Scan :=
  match cs with
  | [] => ⟨[], .complete position⟩
  | c :: cs =>
    if Text.isBlank c then scanFrom (position + c.utf8Size) cs
    else
      match _h : readLexeme c cs with
      | .error fault => ⟨[], .broken ⟨fault, position⟩⟩
      | .ok l =>
        (scanFrom (position + Text.byteLength l.chars) l.rest).cons ⟨l.kind, l.chars, position⟩
termination_by cs.length
decreasing_by
  · simp
  · have := length_rest_le ‹_›
    simp
    omega

/-- The tokens of a source. -/
def scan (source : List Char) : Scan := scanFrom 0 source

end TraceViews.Filter
