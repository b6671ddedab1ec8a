import Calculator.Evaluation

/-!
# Exact values

What a tree means on the integers without any bound, and which of its applications fail.
An application fails if its operator has no meaning, if it divides by zero, or if its exact
value is outside the range of values. The exact values above a failing application mean
nothing, but they are never asked for: applications are listed in the order in which
evaluation reaches them, operands from left to right and before their operator, and the
answer is the first failure of the list. If there is none, the answer is the exact value.

The trees are arbitrary. They may have been put together from tokens of any kind.
-/
namespace Calculator

def Expr.exact : Expr → Int
  | .number token => (token.value.getD 0).toInt
  | .binary left operator right =>
      match operator.kind with
      | .plus => left.exact + right.exact
      | .minus => left.exact - right.exact
      | .star => left.exact * right.exact
      | .slash => left.exact.tdiv right.exact
      | _ => 0
  | .group _ inner _ => inner.exact

structure Application where
  left : Expr
  operator : Token
  right : Expr
  deriving DecidableEq, Repr

/-- The applications of a tree, each behind those of its left and of its right operand. -/
def Expr.applications : Expr → List Application
  | .number _ => []
  | .binary left operator right =>
      left.applications ++ right.applications ++ [⟨left, operator, right⟩]
  | .group _ inner _ => inner.applications

namespace Application

def exact (a : Application) : Int := (Expr.binary a.left a.operator a.right).exact

/-- Why an application fails, judged by the exact values of its operands. -/
def fault? (a : Application) : Option Fault :=
  if a.operator.kind ∉ [.plus, .minus, .star, .slash] then
    some ⟨.unexpectedOperator a.operator.kind, a.operator.position⟩
  else if a.operator.kind = .slash ∧ a.right.exact = 0 then
    some ⟨.divisionByZero, a.operator.position⟩
  else if a.exact < -2147483648 ∨ 2147483647 < a.exact then
    some ⟨.overflow, a.operator.position⟩
  else none

theorem exact_eq {a : Application} {op : Operator}
    (h : Operator.ofKind? a.operator.kind = some op) :
    a.exact = op.exact a.left.exact a.right.exact := by
  rw [Operator.ofKind?_eq_some_iff] at h
  cases op <;> simp [exact, Expr.exact, h, Operator.kind, Operator.exact]

theorem mem_kinds_iff {k : Token.Kind} :
    k ∈ [Token.Kind.plus, .minus, .star, .slash] ↔ ∃ op, Operator.ofKind? k = some op := by
  cases k <;> simp [Operator.ofKind?]

theorem apply_eq (a : Application) {v w : Int32} (hv : v.toInt = a.left.exact)
    (hw : w.toInt = a.right.exact) :
    (∀ f, a.fault? = some f → a.operator.apply v w = .error f) ∧
      (a.fault? = none → ∃ u, a.operator.apply v w = .ok u ∧ u.toInt = a.exact) := by
  cases hop : Operator.ofKind? a.operator.kind with
  | none =>
    have hn : a.operator.kind ∉ [Token.Kind.plus, .minus, .star, .slash] := by
      rw [mem_kinds_iff, hop]
      simp
    simp [fault?, hn, Token.apply, hop]
  | some op =>
    have hm : a.operator.kind ∈ [Token.Kind.plus, .minus, .star, .slash] :=
      mem_kinds_iff.2 ⟨op, hop⟩
    have hover : op = .over ↔ a.operator.kind = .slash := by
      rw [Operator.ofKind?_eq_some_iff.1 hop]
      cases op <;> decide
    have hzero : w = 0 ↔ a.right.exact = 0 := by
      rw [← hw, ← Int32.toInt_inj]
      rfl
    have hexact := exact_eq hop
    rw [← hv, ← hw] at hexact
    simp only [fault?, hm, not_true_eq_false, if_false, Token.apply, hop, Operator.apply,
      hover, hzero, ← hexact]
    by_cases hdiv : a.operator.kind = .slash ∧ a.right.exact = 0
    · simp [hdiv]
    · rw [if_neg hdiv, if_neg hdiv]
      cases hn : narrow? a.exact with
      | none =>
        have hrange := narrow?_eq_none_iff.1 hn
        rw [if_pos (by omega)]
        simp
      | some u =>
        have hu := narrow?_eq_some_iff.1 hn
        have hlow := u.le_toInt
        have hhigh := u.toInt_lt
        rw [if_neg (by omega)]
        simp [hu]

/-- The one quotient of two values that is no value. -/
example : fault? ⟨.number { kind := .number, position := 0, value := some Int32.minValue },
    { kind := .slash, position := 1 },
    .number { kind := .number, position := 2, value := some (-1) }⟩ = some ⟨.overflow, 1⟩ := by
  decide

end Application

theorem Expr.evaluate_cases (e : Expr) :
    (∀ f, e.applications.findSome? Application.fault? = some f → e.evaluate = .error f) ∧
      (e.applications.findSome? Application.fault? = none →
        ∃ v, e.evaluate = .ok v ∧ v.toInt = e.exact) := by
  induction e with
  | number token => exact ⟨fun f hf => by simp [applications] at hf, fun _ => ⟨_, rfl, rfl⟩⟩
  | group _ inner _ ih => exact ih
  | binary left operator right ihl ihr =>
    simp only [applications, List.findSome?_append, evaluate_binary]
    cases hl : left.applications.findSome? Application.fault? with
    | some f =>
      rw [ihl.1 f hl]
      exact ⟨fun g hg => by simpa [bind, Except.bind] using hg, by simp⟩
    | none =>
      obtain ⟨v, hv, hve⟩ := ihl.2 hl
      cases hr : right.applications.findSome? Application.fault? with
      | some f =>
        rw [hv, ihr.1 f hr]
        exact ⟨fun g hg => by simpa [bind, Except.bind] using hg, by simp⟩
      | none =>
        obtain ⟨w, hw, hwe⟩ := ihr.2 hr
        rw [hv, hw]
        have ha := Application.apply_eq ⟨left, operator, right⟩ hve hwe
        simpa [bind, Except.bind, Application.exact] using ha

/-- A tree has a value exactly if no application of it fails, and then it is the exact value;
otherwise the answer is the first failure in the order of the applications. -/
theorem Expr.evaluate_eq_iff_exact (e : Expr) :
    (∀ v, e.evaluate = .ok v ↔
      (∀ a ∈ e.applications, a.fault? = none) ∧ v.toInt = e.exact) ∧
    (∀ f, e.evaluate = .error f ↔
      e.applications.findSome? Application.fault? = some f) := by
  obtain ⟨herror, hok⟩ := e.evaluate_cases
  rw [List.findSome?_eq_none_iff] at hok
  constructor
  · intro v
    constructor
    · intro h
      have hnone : ∀ a ∈ e.applications, a.fault? = none := by
        rw [← List.findSome?_eq_none_iff, Option.eq_none_iff_forall_ne_some]
        intro f hf
        rw [herror f hf] at h
        cases h
      obtain ⟨w, hw, hwe⟩ := hok hnone
      rw [h, Except.ok.injEq] at hw
      exact ⟨hnone, hw ▸ hwe⟩
    · rintro ⟨hnone, hv⟩
      obtain ⟨w, hw, hwe⟩ := hok hnone
      rw [hw, Except.ok.injEq, ← Int32.toInt_inj, hwe, hv]
  · intro f
    constructor
    · intro h
      cases hf : e.applications.findSome? Application.fault? with
      | none =>
        obtain ⟨w, hw, -⟩ := hok (List.findSome?_eq_none_iff.1 hf)
        rw [h] at hw
        cases hw
      | some g =>
        rw [herror g hf, Except.error.injEq] at h
        rw [h]
    · exact herror f

end Calculator
