import Calculator.Token

/-!
# Expressions

The tree of a line. Its leaves are tokens, so that every part of the tree can be traced
to a place in the line; a tree may also be put together by hand, from tokens of any
kind. `Expr.tokens` reads the leaves from left to right.

A node is what an outline has a line for: an expression or a token.
-/
namespace Calculator

inductive Expr where
  | number (token : Token)
  | binary (left : Expr) (operator : Token) (right : Expr)
  | group (opening : Token) (inner : Expr) (closing : Token)
  deriving DecidableEq, Repr

namespace Expr

def kindName : Expr → String
  | .number _ => "NumberExpression"
  | .binary _ _ _ => "BinaryExpression"
  | .group _ _ _ => "ParenthesizedExpression"

/-- The position of the leftmost token. -/
def position : Expr → Nat
  | .number token => token.position
  | .binary left _ _ => left.position
  | .group opening _ _ => opening.position

/-- The tokens from left to right. -/
def tokens : Expr → List Token
  | .number token => [token]
  | .binary left operator right => left.tokens ++ operator :: right.tokens
  | .group opening inner closing => opening :: (inner.tokens ++ [closing])

theorem head?_tokens (e : Expr) : e.tokens.head?.map Token.position = some e.position := by
  induction e with
  | number _ => rfl
  | binary left _ _ ih _ =>
    cases h : left.tokens with
    | nil => simp [h] at ih
    | cons t ts => simpa [tokens, position, h] using ih
  | group _ _ _ _ => rfl

end Expr

inductive Node where
  | expr (e : Expr)
  | token (t : Token)
  deriving DecidableEq, Repr

/-- The parts of a node, from left to right. -/
def Node.children : Node → List Node
  | .token _ => []
  | .expr (.number t) => [.token t]
  | .expr (.binary left operator right) => [.expr left, .token operator, .expr right]
  | .expr (.group opening inner closing) => [.token opening, .expr inner, .token closing]

end Calculator
