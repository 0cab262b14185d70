import TraceViews.Record
import TraceViews.Text.Quoted
import TraceViews.Text.Utf8

/-!
# Tokens of the filter language

A token is a kind with the characters that spell it and its place in the source. Every kind has a
spelling of its own (`TokenKind.spell`), the one in which expressions are printed.
-/

namespace TraceViews.Filter

/-- The reserved words. -/
inductive Keyword where
  | eq
  | contains
  | within
  | and
  | or
  | not
  deriving DecidableEq, Repr

namespace Keyword

def all : List Keyword := [eq, contains, within, and, or, not]

def spell : Keyword → String
  | eq => "eq"
  | contains => "contains"
  | within => "in"
  | and => "and"
  | or => "or"
  | not => "not"

/-- The keyword of a spelling. -/
def ofSpelling? (s : String) : Option Keyword := all.find? fun k => k.spell == s

theorem ofSpelling?_spell (k : Keyword) : ofSpelling? k.spell = some k := by
  cases k <;> decide

theorem spell_of_ofSpelling? {s : String} {k : Keyword} (h : ofSpelling? s = some k) :
    k.spell = s := by
  simpa using List.find?_some h

end Keyword

/-- The punctuation marks. -/
inductive Mark where
  | openParen
  | closeParen
  | openBracket
  | closeBracket
  | comma
  deriving DecidableEq, Repr

namespace Mark

def all : List Mark := [openParen, closeParen, openBracket, closeBracket, comma]

def spell : Mark → Char
  | openParen => '('
  | closeParen => ')'
  | openBracket => '['
  | closeBracket => ']'
  | comma => ','

/-- The mark of a character. -/
def ofChar? (c : Char) : Option Mark := all.find? fun m => m.spell == c

theorem ofChar?_spell (m : Mark) : ofChar? m.spell = some m := by
  cases m <;> decide

theorem spell_of_ofChar? {c : Char} {m : Mark} (h : ofChar? c = some m) : m.spell = c := by
  simpa using List.find?_some h

end Mark

/-- What a token stands for. -/
inductive TokenKind where
  | ident (name : String)
  | text (value : String)
  | number (value : Int64)
  | keyword (k : Keyword)
  | mark (m : Mark)
  deriving DecidableEq, Repr

namespace TokenKind

/-- What a word stands for: a keyword if it is reserved, an identifier otherwise. -/
def ofWord (s : String) : TokenKind :=
  match Keyword.ofSpelling? s with
  | some k => keyword k
  | none => ident s

/-- The characters that a token of this kind is printed as. -/
def spell : TokenKind → List Char
  | ident name => name.toList
  | text value => '"' :: Text.Quoted.encode value.toList ++ ['"']
  | number value => Text.intDigits value.toInt
  | keyword k => k.spell.toList
  | mark m => [m.spell]

/-- The words for a kind in messages. -/
def describe : TokenKind → String
  | ident name => "identifier '" ++ name ++ "'"
  | text _ => "string literal"
  | number value => "number " ++ Text.showInt64 value
  | keyword k => "'" ++ k.spell ++ "'"
  | mark m => "'" ++ m.spell.toString ++ "'"

end TokenKind

/-- A token: its kind, the characters that spell it in the source, and the byte position of the
first of them. -/
structure Token where
  kind : TokenKind
  lexeme : List Char
  position : Nat
  deriving DecidableEq, Repr

namespace Token

/-- The byte position behind the last character. -/
def stop (t : Token) : Nat := t.position + Text.byteLength t.lexeme

end Token

end TraceViews.Filter
