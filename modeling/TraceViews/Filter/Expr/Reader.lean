import TraceViews.Filter.Expr
import TraceViews.Filter.Token.Scan

/-!
# Reading filter expressions

A filter is one or more `or`-expressions one after the other, which are conjoined. An
`or`-expression joins `and`-expressions, an `and`-expression joins operands, and an operand is a
comparison, a `not` with its operand, or an `or`-expression in parentheses. `and`, `or` and the
outermost conjunction group to the left.

The tokens are read one by one. Between two tokens a `Reader` holds what has been read: for each
open parenthesis the operands that wait for their partner, and in the innermost one what may come
next. A finished operand is joined to its waiting partners when the token behind it is seen, which
also is the place that an expression of too great a height is reported at.
-/

namespace TraceViews.Filter

/-- The greatest height of an expression, and the most `not`s and parentheses open at a time. -/
def maxDepth : Nat := 256

/-- An expression with its height. -/
structure Measured where
  expr : Expr
  height : Nat
  height_eq : expr.height = height

namespace Measured

/-- A single comparison. -/
def test (c : Comparison) : Measured := ⟨.test c, 1, rfl⟩

/-- Refuses an expression whose height is above the limit. -/
def bounded (limit : Nat) (m : Measured) : Except Fault Measured :=
  if m.height ≤ limit then .ok m else .error (.tooDeep limit)

/-- The negation of an operand. -/
def negate (limit : Nat) (m : Measured) : Except Fault Measured :=
  bounded limit ⟨.not m.expr, m.height + 1, by simp [Expr.height, m.height_eq]⟩

/-- An operand under as many `not`s as are waiting for it. -/
def negateAll (limit : Nat) : Nat → Measured → Except Fault Measured
  | 0, m => .ok m
  | n + 1, m => m.negate limit >>= negateAll limit n

/-- The conjunction with a waiting left operand, if there is one. -/
def conjoin (limit : Nat) (left : Option Measured) (right : Measured) : Except Fault Measured :=
  match left with
  | none => .ok right
  | some left =>
    bounded limit ⟨.and left.expr right.expr, max left.height right.height + 1,
      by simp [Expr.height, left.height_eq, right.height_eq]⟩

/-- The disjunction with a waiting left operand, if there is one. -/
def disjoin (limit : Nat) (left : Option Measured) (right : Measured) : Except Fault Measured :=
  match left with
  | none => .ok right
  | some left =>
    bounded limit ⟨.or left.expr right.expr, max left.height right.height + 1,
      by simp [Expr.height, left.height_eq, right.height_eq]⟩

end Measured

/-- What waits for a partner inside one pair of parentheses, or outside of all: the left operand of
an `or`, the left operand of an `and`, and `not`s. -/
structure Level where
  disjunct : Option Measured
  conjunct : Option Measured
  negations : Nat

namespace Level

/-- Nothing waits. -/
def empty : Level := ⟨none, none, 0⟩

end Level

/-- What may come next. -/
inductive Phase where
  /-- An operand. -/
  | operand
  /-- The relation behind a field's name. -/
  | relation (name : String)
  /-- The literal behind `eq`. -/
  | literal (name : String)
  /-- The string behind `contains`. -/
  | needle (name : String)
  /-- The bracket behind `in`. -/
  | list (name : String)
  /-- The first item of a list, or its end. -/
  | firstItem (name : String)
  /-- A string behind a comma; the items so far, the last one first. -/
  | textItem (name : String) (items : List String)
  /-- A number behind a comma; the items so far, the last one first. -/
  | numberItem (name : String) (items : List Int64)
  /-- A comma or the end of a list of strings. -/
  | textEnd (name : String) (items : List String)
  /-- A comma or the end of a list of numbers. -/
  | numberEnd (name : String) (items : List Int64)
  /-- What may follow a finished operand. -/
  | junction (operand : Measured)

/-- The state between two tokens: the conjunction of the `or`-expressions before the present one,
the innermost level, the levels around it from the inside out, and what may come next. -/
structure Reader where
  finished : Option Measured
  level : Level
  outer : List Level
  phase : Phase

namespace Reader

/-- The state before the first token. -/
def start : Reader := ⟨none, .empty, [], .operand⟩

/-- The number of open `not`s and parentheses. -/
def nesting (r : Reader) : Nat :=
  r.outer.foldr (fun level n => level.negations + 1 + n) r.level.negations

/-- What the present phase has in place of an unexpected token. -/
def expected (r : Reader) : Expected :=
  match r.phase with
  | .operand => .operand
  | .relation _ => .relation
  | .literal _ => .literal
  | .needle _ => .textLiteral
  | .list _ => .openBracket
  | .firstItem _ => .firstItem
  | .textItem _ _ => .textLiteral
  | .numberItem _ _ => .numberLiteral
  | .textEnd _ _ => .separator
  | .numberEnd _ _ => .separator
  | .junction _ => if r.outer.isEmpty then .junction else .closeParen

/-- Goes on with another phase. -/
def goto (r : Reader) (phase : Phase) : Except Fault Reader := .ok { r with phase }

/-- Refuses a token. -/
def refuse (r : Reader) (t : TokenKind) : Except Fault Reader :=
  .error (.unexpectedToken t r.expected)

/-- Goes on behind a comparison. -/
def compared (r : Reader) (c : Comparison) : Except Fault Reader :=
  r.goto (.junction (.test c))

/-- Opens one more `not` or parenthesis, unless too many are open. -/
def enter (limit : Nat) (r opened : Reader) : Except Fault Reader :=
  if r.nesting < limit then .ok opened else .error (.tooDeep limit)

/-- Reads a token where an operand begins. -/
def stepOperand (limit : Nat) (r : Reader) (t : TokenKind) : Except Fault Reader :=
  match t with
  | .ident name => r.goto (.relation name)
  | .keyword .not =>
    r.enter limit { r with level := { r.level with negations := r.level.negations + 1 } }
  | .mark .openParen =>
    r.enter limit { r with level := .empty, outer := r.level :: r.outer }
  | t => r.refuse t

/-- The operand with the `not`s and the left operand of an `and` that wait for it. -/
def conjunction (limit : Nat) (r : Reader) (operand : Measured) : Except Fault Measured :=
  operand.negateAll limit r.level.negations >>= Measured.conjoin limit r.level.conjunct

/-- Reads a token behind a finished operand. -/
def stepJunction (limit : Nat) (r : Reader) (operand : Measured) (t : TokenKind) :
    Except Fault Reader := do
  let conjunction ← r.conjunction limit operand
  if t = .keyword .and then
    return { r with
      level := { disjunct := r.level.disjunct, conjunct := some conjunction, negations := 0 }
      phase := .operand }
  let disjunction ← Measured.disjoin limit r.level.disjunct conjunction
  if t = .keyword .or then
    return { r with
      level := { disjunct := some disjunction, conjunct := none, negations := 0 }
      phase := .operand }
  match r.outer with
  | level :: outer =>
    if t = .mark .closeParen then
      return { r with level, outer, phase := .junction disjunction }
    r.refuse t
  | [] =>
    let whole ← Measured.conjoin limit r.finished disjunction
    match t with
    | .ident _ | .keyword .not | .mark .openParen =>
      stepOperand limit ⟨some whole, .empty, [], .operand⟩ t
    | t => r.refuse t

/-- Reads one token. -/
def step (limit : Nat) (r : Reader) (t : TokenKind) : Except Fault Reader :=
  match r.phase, t with
  | .operand, t => r.stepOperand limit t
  | .relation name, .keyword .eq => r.goto (.literal name)
  | .relation name, .keyword .contains => r.goto (.needle name)
  | .relation name, .keyword .within => r.goto (.list name)
  | .literal name, .text s => r.compared (.eq name (.text s))
  | .literal name, .number n => r.compared (.eq name (.integer n))
  | .needle name, .text s => r.compared (.contains name s)
  | .list name, .mark .openBracket => r.goto (.firstItem name)
  | .firstItem name, .mark .closeBracket => r.compared (.within name (.texts []))
  | .firstItem name, .text s => r.goto (.textEnd name [s])
  | .firstItem name, .number n => r.goto (.numberEnd name [n])
  | .textItem name items, .text s => r.goto (.textEnd name (s :: items))
  | .textItem _ _, .number _ => .error .mixedList
  | .numberItem name items, .number n => r.goto (.numberEnd name (n :: items))
  | .numberItem _ _, .text _ => .error .mixedList
  | .textEnd name items, .mark .comma => r.goto (.textItem name items)
  | .textEnd name items, .mark .closeBracket => r.compared (.within name (.texts items.reverse))
  | .numberEnd name items, .mark .comma => r.goto (.numberItem name items)
  | .numberEnd name items, .mark .closeBracket =>
    r.compared (.within name (.numbers items.reverse))
  | .junction operand, t => r.stepJunction limit operand t
  | _, t => r.refuse t

/-- Reads tokens from left to right, up to the first fault. -/
def run (limit : Nat) (r : Reader) : List Token → Except Located Reader
  | [] => .ok r
  | t :: ts =>
    match r.step limit t.kind with
    | .error fault => .error ⟨fault, t.position⟩
    | .ok r => r.run limit ts

/-- The expression that has been read, if it may end here. -/
def finish (limit : Nat) (r : Reader) : Except Fault Measured :=
  match r.phase with
  | .junction operand => do
    let conjunction ← r.conjunction limit operand
    let disjunction ← Measured.disjoin limit r.level.disjunct conjunction
    if r.outer.isEmpty then Measured.conjoin limit r.finished disjunction
    else .error (.unexpectedEnd r.expected)
  | _ => .error (.unexpectedEnd r.expected)

end Reader

/-- The expression of a scanned source, or the first fault from the left. -/
def readScan (limit : Nat) (s : Scan) : Except Located Expr := do
  let r ← Reader.start.run limit s.tokens
  match s.ending with
  | .broken l => .error l
  | .complete position =>
    match r.finish limit with
    | .error fault => .error ⟨fault, position⟩
    | .ok m => .ok m.expr

/-- The expression of a source. -/
def parse (source : String) : Except SyntaxError Expr :=
  (readScan maxDepth (scan source.toList)).mapError (SyntaxError.ofLocated source.toList)

end TraceViews.Filter
