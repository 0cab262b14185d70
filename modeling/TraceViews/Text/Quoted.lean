/-!
# Quoted text

The inside of a quoted string of the filter language. A quote, a backslash, a line feed, a tab and
a carriage return are written with a backslash; in reading, a backslash before any other character
stands for itself. `decode_encode` says that writing loses nothing.
-/

namespace TraceViews.Text.Quoted

/-- One character as it stands between quotes. -/
def encodeChar (c : Char) : List Char :=
  match c with
  | '"' => ['\\', '"']
  | '\\' => ['\\', '\\']
  | '\n' => ['\\', 'n']
  | '\t' => ['\\', 't']
  | '\r' => ['\\', 'r']
  | c => [c]

/-- A text as it stands between quotes. -/
def encode (cs : List Char) : List Char := cs.flatMap encodeChar

/-- What a backslash and the character after it stand for. -/
def decodePair (c : Char) : List Char :=
  match c with
  | '"' => ['"']
  | '\\' => ['\\']
  | 'n' => ['\n']
  | 't' => ['\t']
  | 'r' => ['\r']
  | c => ['\\', c]

/-- The text that the inside of a quoted string stands for. -/
def decode : List Char → List Char
  | [] => []
  | [c] => [c]
  | c :: d :: cs => if c = '\\' then decodePair d ++ decode cs else c :: decode (d :: cs)

/-- Cuts the text behind an opening quote at the closing one, which a backslash hides; `none` where
there is no closing quote. -/
def close? : List Char → Option (List Char × List Char)
  | [] => none
  | c :: cs =>
    if c = '"' then some ([], cs)
    else if c = '\\' then
      match cs with
      | [] => none
      | d :: ds => (close? ds).map fun parts => (c :: d :: parts.1, parts.2)
    else (close? cs).map fun parts => (c :: parts.1, parts.2)

/-- The inside, the closing quote and the rest make up the text. -/
theorem eq_of_close? {cs inside rest : List Char} (h : close? cs = some (inside, rest)) :
    cs = inside ++ '"' :: rest := by
  fun_induction close? cs generalizing inside rest with
  | case1 => simp at h
  | case2 cs => simp_all
  | case3 => simp at h
  | case4 d ds _ ih =>
    obtain ⟨parts, hp, heq⟩ := Option.map_eq_some_iff.1 h
    simp only [Prod.mk.injEq] at heq
    obtain ⟨rfl, rfl⟩ := heq
    simp [ih hp]
  | case5 c cs _ _ ih =>
    obtain ⟨parts, hp, heq⟩ := Option.map_eq_some_iff.1 h
    simp only [Prod.mk.injEq] at heq
    obtain ⟨rfl, rfl⟩ := heq
    simp [ih hp]

theorem decode_encodeChar_append (c : Char) (cs : List Char) :
    decode (encodeChar c ++ cs) = c :: decode cs := by
  unfold encodeChar
  split <;> try simp [decode, decodePair]
  cases cs with
  | nil => rfl
  | cons d cs => simp_all [decode]

theorem decode_encode (cs : List Char) : decode (encode cs) = cs := by
  induction cs with
  | nil => rfl
  | cons c cs ih =>
    rw [encode, List.flatMap_cons, decode_encodeChar_append]
    exact congrArg (c :: ·) ih

end TraceViews.Text.Quoted
