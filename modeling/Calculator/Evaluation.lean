import Calculator.Expr
import Calculator.Operator

/-!
# Evaluation

The value of a tree is a 32-bit signed integer. An operator is applied exactly and its
result is then checked against the range of values, so that nothing ever wraps around.
Operands are evaluated from left to right and before their operator; the first fault
in this order is the answer.

A fault is a cause and the position of the operator at which it arose. An operator token of
another kind than the four that have a meaning occurs only in trees put together by hand.

A number token without a value counts as zero. Nothing here looks at placeholders:
whether a tree is worth evaluating is decided elsewhere.
-/
namespace Calculator

inductive Fault.Cause where
  | divisionByZero
  /-- The exact result is outside the range of values. -/
  | overflow
  | unexpectedOperator (kind : Token.Kind)
  deriving DecidableEq, Repr

structure Fault where
  cause : Fault.Cause
  position : Nat
  deriving DecidableEq, Repr

def Fault.Cause.description : Fault.Cause → String
  | .divisionByZero => "Division by zero."
  | .overflow => "Integer overflow while trying to compute result."
  | .unexpectedOperator kind => "Unexpected operator <" ++ kind.name ++ ">."

def Fault.message (f : Fault) : String :=
  "Error at position " ++ toString f.position ++ ": " ++ f.cause.description

/-- The value that an exact result is kept as, if it is in range. -/
def narrow? (n : Int) : Option Int32 :=
  if -2147483648 ≤ n ∧ n ≤ 2147483647 then some (Int32.ofInt n) else none

theorem narrow?_eq_some_iff {n : Int} {v : Int32} : narrow? n = some v ↔ v.toInt = n := by
  unfold narrow?
  split
  · next h =>
    rw [Option.some.injEq, ← Int32.toInt_inj, Int32.toInt_ofInt_of_le h.1 (by omega)]
    exact eq_comm
  · next h =>
    refine ⟨fun hn => absurd hn (by simp), fun hv => absurd ?_ h⟩
    have hlow := v.le_toInt
    have hhigh := v.toInt_lt
    omega

theorem narrow?_eq_none_iff {n : Int} :
    narrow? n = none ↔ n < -2147483648 ∨ 2147483647 < n := by
  unfold narrow?
  split <;> simp <;> omega

/-- Applies an operator that stands at the given position. -/
def Operator.apply (op : Operator) (position : Nat) (left right : Int32) : Except Fault Int32 :=
  if op = .over ∧ right = 0 then .error ⟨.divisionByZero, position⟩
  else match narrow? (op.exact left.toInt right.toInt) with
    | some v => .ok v
    | none => .error ⟨.overflow, position⟩

/-- Applies the operator that a token stands for. -/
def Token.apply (operator : Token) (left right : Int32) : Except Fault Int32 :=
  match Operator.ofKind? operator.kind with
  | some op => op.apply operator.position left right
  | none => .error ⟨.unexpectedOperator operator.kind, operator.position⟩

namespace Expr

/-- Evaluates a tree. A fault is reported where it arises, and not again by the operators around
the one that fails. -/
def evaluateWith {m : Type → Type} [Monad m] (report : Fault → m Unit) :
    Expr → ExceptT Fault m Int32
  | .number token => return token.value.getD 0
  | .binary left operator right => do
      let a ← left.evaluateWith report
      let b ← right.evaluateWith report
      match operator.apply a b with
      | .ok v => return v
      | .error f =>
          report f
          throw f
  | .group _ inner _ => inner.evaluateWith report

/-- The value of a tree, with no fault reported. -/
def evaluate (e : Expr) : Except Fault Int32 := Id.run (e.evaluateWith fun _ => pure ()).run

theorem evaluate_number (token : Token) :
    (number token).evaluate = .ok (token.value.getD 0) := rfl

theorem evaluate_group (opening : Token) (inner : Expr) (closing : Token) :
    (group opening inner closing).evaluate = inner.evaluate := rfl

theorem evaluate_binary (left : Expr) (operator : Token) (right : Expr) :
    (binary left operator right).evaluate = (do
      let a ← left.evaluate
      let b ← right.evaluate
      operator.apply a b) := by
  simp only [evaluate, evaluateWith, ExceptT.run_bind, Id.run_bind]
  cases (left.evaluateWith fun _ => (pure () : Id Unit)).run.run with
  | error f => rfl
  | ok a =>
    simp only [Id.run_bind]
    cases (right.evaluateWith fun _ => (pure () : Id Unit)).run.run with
    | error f => rfl
    | ok b =>
      change Id.run _ = operator.apply a b
      cases h : operator.apply a b <;> simp only [h] <;> rfl

end Expr

end Calculator
