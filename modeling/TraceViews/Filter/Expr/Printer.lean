import TraceViews.Filter.Expr
import TraceViews.Filter.Token

/-!
# Printing filter expressions

An expression is printed by way of its tokens. Parentheses stand only where an operand binds less
strongly than its place demands; `and` and `or` group to the left, so their right operand's place
demands more. The tokens are then spelled with conventional spacing.
-/

namespace TraceViews.Filter

namespace TokenKind

/-- Whether a space stands between two tokens in printed text: none behind an opening mark, none
before a closing mark or a comma. -/
def spaced : TokenKind → TokenKind → Bool
  | mark .openParen, _ => false
  | mark .openBracket, _ => false
  | _, mark .closeParen => false
  | _, mark .closeBracket => false
  | _, mark .comma => false
  | _, _ => true

/-- The text of a sequence of tokens. -/
def spellAll : List TokenKind → List Char
  | [] => []
  | [t] => t.spell
  | t :: u :: ts => t.spell ++ (if t.spaced u then [' '] else []) ++ spellAll (u :: ts)

end TokenKind

namespace Items

/-- The tokens of the items, separated by commas. -/
def separated : List TokenKind → List TokenKind
  | [] => []
  | [t] => [t]
  | t :: u :: ts => t :: .mark .comma :: separated (u :: ts)

/-- The tokens of a list, without its brackets. -/
def tokens : Items → List TokenKind
  | texts items => separated (items.map .text)
  | numbers items => separated (items.map .number)

end Items

namespace Comparison

/-- The token of a literal. -/
def literalToken : Value → TokenKind
  | .text s => .text s
  | .integer n => .number n

/-- The tokens of a comparison. -/
def tokens : Comparison → List TokenKind
  | eq name value => [.ident name, .keyword .eq, literalToken value]
  | contains name needle => [.ident name, .keyword .contains, .text needle]
  | within name items =>
    .ident name :: .keyword .within :: .mark .openBracket :: items.tokens ++ [.mark .closeBracket]

end Comparison

namespace Expr

/-- How strongly an expression's operator binds. -/
def precedence : Expr → Nat
  | or _ _ => 1
  | and _ _ => 2
  | not _ => 3
  | test _ => 3

/-- Parentheses around tokens. -/
def parenthesize (ts : List TokenKind) : List TokenKind :=
  .mark .openParen :: ts ++ [.mark .closeParen]

/-- The tokens of an expression in a place that demands the precedence `demand`. -/
def tokensAt (demand : Nat) (e : Expr) : List TokenKind :=
  let inner :=
    match e with
    | test c => c.tokens
    | not operand => .keyword .not :: operand.tokensAt 3
    | and left right => left.tokensAt 2 ++ .keyword .and :: right.tokensAt 3
    | or left right => left.tokensAt 1 ++ .keyword .or :: right.tokensAt 2
  if e.precedence < demand then parenthesize inner else inner

/-- The tokens that an expression is printed with. -/
def tokens (e : Expr) : List TokenKind := e.tokensAt 0

/-- An expression as filter text. -/
def print (e : Expr) : String := String.ofList (TokenKind.spellAll e.tokens)

end Expr

end TraceViews.Filter
