import Calculator.Token

/-!
# Operators

The four operations that a line may name, each tied to one kind of token, and what they
mean on the integers without any bound. Division drops the fraction, toward zero. The
quotient by zero is zero here, as in the core library; that a line may not divide by
zero is said in `Calculator.Evaluation`.
-/
namespace Calculator

inductive Operator where
  | plus | minus | times | over
  deriving DecidableEq, Repr

namespace Operator

def ofKind? : Token.Kind → Option Operator
  | .plus => some .plus
  | .minus => some .minus
  | .star => some .times
  | .slash => some .over
  | _ => none

def kind : Operator → Token.Kind
  | .plus => .plus
  | .minus => .minus
  | .times => .star
  | .over => .slash

theorem ofKind?_eq_some_iff {k : Token.Kind} {op : Operator} :
    ofKind? k = some op ↔ k = op.kind := by
  cases k <;> cases op <;> decide

def symbol : Operator → String
  | .plus => "+"
  | .minus => "-"
  | .times => "*"
  | .over => "/"

/-- Joins the summands of a sum. -/
def isAdditive : Operator → Bool
  | .plus | .minus => true
  | .times | .over => false

/-- Joins the factors of a product. -/
def isMultiplicative : Operator → Bool
  | .plus | .minus => false
  | .times | .over => true

def exact : Operator → Int → Int → Int
  | .plus, a, b => a + b
  | .minus, a, b => a - b
  | .times, a, b => a * b
  | .over, a, b => a.tdiv b

example : exact .over (-7) 2 = -3 ∧ exact .over 7 (-2) = -3 := by decide

end Operator

end Calculator
