import Calculator.Proofs.Sentences

/-!
# Drafts

A draft is a tree that has yet to be printed: its numbers are digits, its operators are
known, and it says which blanks stand in front of every token. What it prints and the tree
that its print should be read as are both computed from it, and neither of them by reading.

Parentheses are part of a tree, and nothing is printed to make up for missing ones. A tree
is normal if it needs none beyond its own. That is said of each operator and its operands;
it comes down to being derived, apart from what the numbers are. How prints are read is not
said here.
-/
namespace Calculator

structure IsDigits (digits : List Char) : Prop where
  ne_nil : digits ≠ []
  isDigit : ∀ c ∈ digits, c.isDigit = true
  le : Nat.ofDigitChars 10 digits 0 ≤ 2147483647

def Token.IsNumeral (t : Token) : Prop :=
  ∃ digits, IsDigits digits ∧ t.text = some (String.ofList digits)

namespace Expr

/-- The tree may stand in the place of a phrase of the level: a primary is a number or a
group, and a factor is anything but a sum or a difference. -/
def Fits : Level → Expr → Prop
  | .primary, .binary _ _ _ => False
  | .factor, .binary _ operator _ => operator.kind ≠ .plus ∧ operator.kind ≠ .minus
  | _, _ => True

/-- All numbers are in range, all operators have a meaning, and no operand of an operator
is one that would have to stand in parentheses. -/
def IsNormal : Expr → Prop
  | .number token => token.IsNumeral
  | .binary left operator right => left.IsNormal ∧ right.IsNormal ∧
      ((operator.kind = .plus ∨ operator.kind = .minus) ∧ right.Fits .factor ∨
        (operator.kind = .star ∨ operator.kind = .slash) ∧
          left.Fits .factor ∧ right.Fits .primary)
  | .group _ inner _ => inner.IsNormal

theorem fits_factor_of_primary {e : Expr} (h : e.Fits .primary) : e.Fits .factor := by
  cases e with
  | number => trivial
  | binary => exact h.elim
  | group => trivial

end Expr

theorem Derivation.isNormal {level : Level} {e : Expr} (h : Derivation level e)
    (hn : ∀ t ∈ e.tokens, t.kind = .number → t.IsNumeral) : e.IsNormal ∧ e.Fits level := by
  induction h with
  | number hk => exact ⟨hn _ (by simp [Expr.tokens]) hk, trivial⟩
  | group _ _ _ ih => exact ⟨(ih fun t ht => hn t (by simp [Expr.tokens, ht])).1, trivial⟩
  | primary _ ih => exact ⟨(ih hn).1, Expr.fits_factor_of_primary (ih hn).2⟩
  | product _ hk _ ihl ihr =>
    have hl := ihl fun t ht => hn t (by simp [Expr.tokens, ht])
    have hr := ihr fun t ht => hn t (by simp [Expr.tokens, ht])
    refine ⟨⟨hl.1, hr.1, .inr ⟨hk, hl.2, hr.2⟩⟩, ?_⟩
    rcases hk with hk | hk <;> simp [Expr.Fits, hk]
  | factor _ ih => exact ⟨(ih hn).1, trivial⟩
  | sum _ hk _ ihl ihr =>
    have hl := ihl fun t ht => hn t (by simp [Expr.tokens, ht])
    have hr := ihr fun t ht => hn t (by simp [Expr.tokens, ht])
    exact ⟨⟨hl.1, hr.1, .inl ⟨hk, hr.2⟩⟩, trivial⟩

def signAt (kind : Token.Kind) (text : String) (position : Nat) : Token where
  kind := kind
  position := position
  text := some text

def numberAt (digits : List Char) (position : Nat) : Token where
  kind := .number
  position := position
  text := some (String.ofList digits)
  value := some (Int32.ofNat (Nat.ofDigitChars 10 digits 0))

/-- A tree with the blanks before each of its tokens. -/
inductive Draft where
  | number (gap digits : List Char)
  | binary (left : Draft) (gap : List Char) (operator : Operator) (right : Draft)
  | group (gap : List Char) (inner : Draft) (behind : List Char)
  deriving DecidableEq, Repr

namespace Draft

def chars : Draft → List Char
  | .number gap digits => gap ++ digits
  | .binary left gap operator right =>
      left.chars ++ (gap ++ (operator.symbol.toList ++ right.chars))
  | .group gap inner behind => gap ++ ("(".toList ++ (inner.chars ++ (behind ++ ")".toList)))

/-- The tree of a draft that is printed from an offset on. The offset of a token is that of
the print plus the bytes of what is printed before it. -/
def exprAt (position : Nat) : Draft → Expr
  | .number gap digits => .number (numberAt digits (position + byteLength gap))
  | .binary left gap operator right =>
      let here := position + byteLength left.chars + byteLength gap
      .binary (left.exprAt position) (signAt operator.kind operator.symbol here)
        (right.exprAt (here + byteLength operator.symbol.toList))
  | .group gap inner behind =>
      let here := position + byteLength gap
      let start := here + byteLength "(".toList
      .group (signAt .openParen "(" here) (inner.exprAt start)
        (signAt .closeParen ")" (start + byteLength inner.chars + byteLength behind))

def IsSpaced : Draft → Prop
  | .number gap _ => ∀ c ∈ gap, isBlank c = true
  | .binary left gap _ right => left.IsSpaced ∧ (∀ c ∈ gap, isBlank c = true) ∧ right.IsSpaced
  | .group gap inner behind =>
      (∀ c ∈ gap, isBlank c = true) ∧ inner.IsSpaced ∧ ∀ c ∈ behind, isBlank c = true

theorem derivation {d : Draft} {p : Nat} (hn : (d.exprAt p).IsNormal) {level : Level}
    (hf : (d.exprAt p).Fits level) : Derivation level (d.exprAt p) := by
  induction d generalizing p level with
  | number gap digits =>
    have h : Derivation .primary (exprAt p (.number gap digits)) := .number rfl
    cases level with
    | primary => exact h
    | factor => exact .primary h
    | term => exact .factor (.primary h)
  | group gap inner behind ih =>
    have h : Derivation .primary (exprAt p (.group gap inner behind)) :=
      .group rfl (ih hn trivial) rfl
    cases level with
    | primary => exact h
    | factor => exact .primary h
    | term => exact .factor (.primary h)
  | binary left gap operator right ihl ihr =>
    obtain ⟨hl, hr, ⟨hk, hrf⟩ | ⟨hk, hlf, hrf⟩⟩ := hn
    · cases level with
      | primary => exact hf.elim
      | factor => exact absurd hk (not_or.2 hf)
      | term => exact .sum (ihl hl trivial) hk (ihr hr hrf)
    · have h := Derivation.product (ihl hl hlf) hk (ihr hr hrf)
      cases level with
      | primary => exact hf.elim
      | factor => exact h
      | term => exact .factor h

end Draft

end Calculator
