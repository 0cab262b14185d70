import TraceViews.Filter.Token

/-!
# Faults of filter sources

A fault is a cause. A syntax error is a fault at a byte position, with what a reader wants to see
there: the column, and a slice of the source with a caret under the place.
-/

namespace TraceViews.Filter

/-- What could have stood at the place of a fault. -/
inductive Expected where
  | operand
  | relation
  | literal
  | textLiteral
  | numberLiteral
  | openBracket
  | firstItem
  | separator
  | closeParen
  | junction
  deriving DecidableEq, Repr

namespace Expected

def describe : Expected → String
  | operand => "an identifier, 'not' or '('"
  | relation => "'eq', 'contains' or 'in'"
  | literal => "a string or number literal"
  | textLiteral => "a string literal"
  | numberLiteral => "a number literal"
  | openBracket => "'['"
  | firstItem => "a literal or ']'"
  | separator => "',' or ']'"
  | closeParen => "')'"
  | junction => "'and', 'or' or end of input"

end Expected

/-- The causes of a syntax error. -/
inductive Fault where
  | unexpectedToken (found : TokenKind) (expected : Expected)
  | unexpectedEnd (expected : Expected)
  | unterminatedString
  | invalidCharacter (c : Char)
  | invalidNumber (spelling : List Char)
  | mixedList
  | tooDeep (limit : Nat)
  deriving DecidableEq, Repr

namespace Fault

def message : Fault → String
  | unexpectedToken found expected =>
    "unexpected " ++ found.describe ++ ", expected " ++ expected.describe
  | unexpectedEnd expected => "unexpected end of input, expected " ++ expected.describe
  | unterminatedString => "unterminated string literal"
  | invalidCharacter c => "invalid character '" ++ c.toString ++ "'"
  | invalidNumber spelling => "invalid number '" ++ String.ofList spelling ++ "'"
  | mixedList => "list mixes strings and numbers"
  | tooDeep limit => "expression nested deeper than " ++ Text.showNat limit ++ " levels"

end Fault

/-- A fault and the byte position it was found at. -/
structure Located where
  fault : Fault
  position : Nat
  deriving DecidableEq, Repr

/-- The most characters of a source that an excerpt shows on either side of a place. -/
def excerptSpan : Nat := 40

/-- The end of a text that an excerpt shows before a place: its last characters, back to the line
break before them. -/
def leadIn (before : List Char) : List Char :=
  ((before.reverse.take excerptSpan).takeWhile (· != '\n')).reverse

/-- The beginning of a text that an excerpt shows after a place: up to the line break. -/
def leadOut (after : List Char) : List Char := (after.takeWhile (· != '\n')).take excerptSpan

/-- A slice of a source around a place, and a caret under the place on a line of its own. -/
def excerpt (before after : List Char) : List Char :=
  leadIn before ++ leadOut after ++ '\n' :: List.replicate (leadIn before).length ' ' ++ ['^']

/-- A source that is no filter: the fault, its byte position, its column counted in characters from
one, and the excerpt of the source. -/
structure SyntaxError where
  fault : Fault
  position : Nat
  column : Nat
  context : String
  deriving DecidableEq, Repr

namespace SyntaxError

/-- A fault with the column and the excerpt of its place in the source, which is at the end if it lies
behind that. -/
def ofLocated (source : List Char) (l : Located) : SyntaxError :=
  let position := min l.position (Text.byteLength source)
  let parts := Text.splitAtByte position source
  { fault := l.fault
    position
    column := parts.1.length + 1
    context := String.ofList (excerpt parts.1 parts.2) }

def message (e : SyntaxError) : String := e.fault.message ++ " at column " ++ Text.showNat e.column

end SyntaxError

end TraceViews.Filter
