import TraceViews.Text.Number

/-!
# Settings documents

The part of TOML that settings are written in: assignments of integers and strings to keys, in every
notation that TOML has for them, and the tables that stand for a choice, whose one member is empty.
A document with any other value is refused, as there is no setting that could take it.
-/

namespace TraceViews.Toml

/-- A value: an integer, a string, an empty array or table, or a table of one empty member. -/
inductive Value where
  | integer (n : Int)
  | text (s : String)
  | empty
  | choice (member : String)
  deriving DecidableEq, Repr

/-- A key: names separated by dots. -/
abbrev Key := List String

/-- A part of a document: an assignment under the header it follows, or a header. -/
inductive Item where
  | assignment (header key : Key) (value : Value)
  | header (key : Key)
  deriving DecidableEq, Repr

/-- What a reader finds, and the text behind it. -/
abbrev Reader (α : Type) := List Char → Option (α × List Char)

/-! ## White space, comments and line ends -/

def isSpace (c : Char) : Bool := c == ' ' || c == '\t'

/-- A character that may stand in comments and strings. -/
def isPlain (c : Char) : Bool := c == '\t' || (0x20 ≤ c.toNat && c.toNat != 0x7F)

def skipSpace (cs : List Char) : List Char := cs.dropWhile isSpace

/-- Takes a line break off. -/
def newline? : List Char → Option (List Char)
  | '\n' :: cs => some cs
  | '\r' :: '\n' :: cs => some cs
  | _ => none

/-- Takes a comment off, if there is one. -/
def skipComment : List Char → List Char
  | '#' :: cs => cs.dropWhile isPlain
  | cs => cs

/-- Takes the rest of a line off, in which there may only be white space and a comment. -/
def endLine? (cs : List Char) : Option (List Char) :=
  match skipComment (skipSpace cs) with
  | [] => some []
  | cs => newline? cs

/-- Takes white space, comments and line breaks off, up to `fuel` lines of them. -/
def skipLines : Nat → List Char → List Char
  | 0, cs => cs
  | fuel + 1, cs =>
    let cs := skipComment (skipSpace cs)
    match newline? cs with
    | some cs => skipLines fuel cs
    | none => cs

/-- Takes white space and line breaks off, up to `fuel` line breaks. -/
def skipBreaks : Nat → List Char → List Char
  | 0, cs => cs
  | fuel + 1, cs =>
    match newline? (skipSpace cs) with
    | some cs => skipBreaks fuel cs
    | none => skipSpace cs

/-! ## Strings -/

def hexValue? (c : Char) : Option Nat :=
  if c.isDigit then some (c.toNat - '0'.toNat)
  else if 'a' ≤ c && c ≤ 'f' then some (c.toNat - 'a'.toNat + 10)
  else if 'A' ≤ c && c ≤ 'F' then some (c.toNat - 'A'.toNat + 10)
  else none

/-- The number of digits in a base; a digit not below the base is refused. -/
def readDigits? (base : Nat) (cs : List Char) : Option Nat :=
  cs.foldlM (fun value c => do
    let d ← hexValue? c
    if d < base then some (value * base + d) else none) 0

/-- The character of a code point in hexadecimal, which must not be a surrogate. -/
def codePoint? (cs : List Char) : Option Char := do
  let n ← readDigits? 16 cs
  if h : n.isValidChar then some (Char.ofNatAux n h) else none

/-- Reads what follows a backslash. -/
def escape? : Reader Char
  | 'b' :: cs => some ('\x08', cs)
  | 't' :: cs => some ('\t', cs)
  | 'n' :: cs => some ('\n', cs)
  | 'f' :: cs => some ('\x0c', cs)
  | 'r' :: cs => some ('\r', cs)
  | '"' :: cs => some ('"', cs)
  | '\\' :: cs => some ('\\', cs)
  | 'u' :: cs => if cs.length < 4 then none else (codePoint? (cs.take 4)).map (·, cs.drop 4)
  | 'U' :: cs => if cs.length < 8 then none else (codePoint? (cs.take 8)).map (·, cs.drop 8)
  | _ => none

/-- Puts a character in front of what a reader finds. -/
def found (c : Char) (r : Option (List Char × List Char)) : Option (List Char × List Char) :=
  r.map fun (s, rest) => (c :: s, rest)

/-- Reads a string up to its closing quote, on one line; `quote` is the double quote where
backslashes count. -/
def line? (quote : Char) : Nat → Reader (List Char)
  | 0, _ => none
  | _, [] => none
  | fuel + 1, c :: cs =>
    if c = quote then some ([], cs)
    else if c = '\\' ∧ quote = '"' then do
      let (c, cs) ← escape? cs
      found c (line? quote fuel cs)
    else if isPlain c then found c (line? quote fuel cs)
    else none

/-- Reads a string up to its three closing quotes, over several lines. Up to two quotes may stand
before the closing ones. -/
def block? (quote : Char) : Nat → Reader (List Char)
  | 0, _ => none
  | fuel + 1, cs =>
    let quotes := (cs.takeWhile (· == quote)).length
    if quotes ≥ 3 then
      some (List.replicate (min quotes 5 - 3) quote, cs.drop (min quotes 5))
    else
      match cs with
      | [] => none
      | c :: rest =>
        if c = '\\' ∧ quote = '"' then
          match newline? (skipSpace rest) with
          | some after => block? quote fuel (skipBreaks fuel after)
          | none => do
            let (c, rest) ← escape? rest
            found c (block? quote fuel rest)
        else
          match newline? cs with
          | some rest => found '\n' (block? quote fuel rest)
          | none => if isPlain c then found c (block? quote fuel rest) else none

/-- Reads a string behind its first quote. -/
def string? (quote : Char) (cs : List Char) : Option (String × List Char) :=
  let body :=
    match cs with
    | a :: b :: rest =>
      if a = quote ∧ b = quote then
        let rest := (newline? rest).getD rest
        block? quote (rest.length + 1) rest
      else line? quote (cs.length + 1) cs
    | cs => line? quote (cs.length + 1) cs
  body.map fun (s, rest) => (String.ofList s, rest)

/-! ## Integers -/

/-- The number of digits in a base, of which underscores may separate any two. -/
def separated? (base : Nat) (cs : List Char) : Option Nat :=
  let wellPlaced :=
    cs.head?.all (· != '_') && cs.getLast?.all (· != '_')
      && (cs.zip cs.tail).all fun pair => !(pair.1 == '_' && pair.2 == '_')
  if cs.isEmpty || !wellPlaced then none else readDigits? base (cs.filter (· != '_'))

/-- A decimal number without leading zeros. -/
def decimal? (cs : List Char) : Option Nat :=
  match cs with
  | '0' :: _ :: _ => none
  | cs => separated? 10 cs

/-- An integer, in decimal with an optional sign or in another base without one. -/
def integer? (cs : List Char) : Option Int :=
  match cs with
  | '0' :: 'x' :: cs => (separated? 16 cs).map Int.ofNat
  | '0' :: 'o' :: cs => (separated? 8 cs).map Int.ofNat
  | '0' :: 'b' :: cs => (separated? 2 cs).map Int.ofNat
  | '+' :: cs => (decimal? cs).map Int.ofNat
  | '-' :: cs => (decimal? cs).map fun n => -Int.ofNat n
  | cs => (decimal? cs).map Int.ofNat

/-- Whether an integer has 64 bits. -/
def isInt64 (n : Int) : Bool := Int64.minValue.toInt ≤ n && n ≤ Int64.maxValue.toInt

/-! ## Keys and values -/

def isKeyChar (c : Char) : Bool := c.isAlphanum || c == '_' || c == '-'

/-- Reads a name: bare, or a string on one line. -/
def name? (cs : List Char) : Option (String × List Char) :=
  match cs with
  | '"' :: rest => (line? '"' cs.length rest).map fun (s, rest) => (String.ofList s, rest)
  | '\x27' :: rest => (line? '\x27' cs.length rest).map fun (s, rest) => (String.ofList s, rest)
  | cs =>
    let name := cs.takeWhile isKeyChar
    if name.isEmpty then none else some (String.ofList name, cs.dropWhile isKeyChar)

/-- Reads a key of at most `fuel` names; white space around the dots does not count. -/
def key? : Nat → Reader Key
  | 0, _ => none
  | fuel + 1, cs => do
    let (name, cs) ← name? (skipSpace cs)
    match skipSpace cs with
    | '.' :: cs => do
      let (names, cs) ← key? fuel cs
      some (name :: names, cs)
    | cs => some ([name], cs)

/-- Reads an empty array or table. -/
def empty? : Reader Unit
  | '[' :: cs =>
    match skipLines (cs.length + 1) cs with
    | ']' :: cs => some ((), cs)
    | _ => none
  | '\x7b' :: cs =>
    match skipSpace cs with
    | '\x7d' :: cs => some ((), cs)
    | _ => none
  | _ => none

/-- Reads a table of one empty member, behind its brace. -/
def choice? (cs : List Char) : Option (String × List Char) := do
  let (member, cs) ← name? (skipSpace cs)
  match skipSpace cs with
  | '=' :: cs => do
    let ((), cs) ← empty? (skipSpace cs)
    match skipSpace cs with
    | '\x7d' :: cs => some (member, cs)
    | _ => none
  | _ => none

/-- A character of an integer. -/
def isNumberChar (c : Char) : Bool := c.isAlphanum || c == '_' || c == '+' || c == '-'

/-- Reads a value. -/
def value? (cs : List Char) : Option (Value × List Char) :=
  match cs with
  | '"' :: rest => (string? '"' rest).map fun (s, rest) => (.text s, rest)
  | '\x27' :: rest => (string? '\x27' rest).map fun (s, rest) => (.text s, rest)
  | '[' :: _ => (empty? cs).map fun ((), rest) => (.empty, rest)
  | '\x7b' :: rest =>
    match empty? cs with
    | some ((), rest) => some (.empty, rest)
    | none => (choice? rest).map fun (member, rest) => (.choice member, rest)
  | cs => do
    let n ← integer? (cs.takeWhile isNumberChar)
    if isInt64 n then some (.integer n, cs.dropWhile isNumberChar) else none

/-! ## Documents -/

/-- Reads a header behind its bracket. -/
def header? (cs : List Char) : Option (Key × List Char) := do
  let (key, cs) ← key? (cs.length + 1) cs
  match cs with
  | ']' :: cs => some (key, cs)
  | _ => none

/-- Reads a line of a document, under the header it follows; gives what it says, if anything. -/
def line (header : Key) (cs : List Char) : Option (Option Item × List Char) :=
  match skipSpace cs with
  | '[' :: cs => do
    let (key, cs) ← header? cs
    return (some (.header key), ← endLine? cs)
  | cs =>
    match endLine? cs with
    | some cs => some (none, cs)
    | none => do
      let (key, cs) ← key? (cs.length + 1) cs
      match cs with
      | '=' :: cs => do
        let (value, cs) ← value? (skipSpace cs)
        return (some (.assignment header key value), ← endLine? cs)
      | _ => none

/-- The header that the next line follows. -/
def headerAfter (header : Key) : Option Item → Key
  | some (.header key) => key
  | _ => header

/-- Reads the lines of a document. -/
def items? (header : Key) (cs : List Char) : Option (List Item) :=
  if cs.isEmpty then some []
  else
    match line header cs with
    | none => none
    | some (item, rest) =>
      if rest.length < cs.length then
        (items? (headerAfter header item) rest).map (item.toList ++ ·)
      else none
termination_by cs.length

/-- What a document says. A byte-order mark at its beginning does not count. -/
def parse? (document : String) : Option (List Item) :=
  match document.toList with
  | '\uFEFF' :: cs => items? [] cs
  | cs => items? [] cs

end TraceViews.Toml
