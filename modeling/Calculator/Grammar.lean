import Calculator.Expr
import Calculator.Operator
import Calculator.Reader

/-!
# The grammar of a line

A term is a chain of factors joined by plus and minus, a factor is a chain of primaries
joined by star and slash, and a primary is a number or a term in parentheses. Chains
group to the left. Reading a phrase always yields a tree: a missing number or closing
parenthesis is replaced by a placeholder and reported, and a token that does not fit is
left for whoever asked for the phrase.

No phrase gives back more tokens than it was given, and a chain goes on only after it
has taken an operator. That is why reading ends, and why the bound is part of what
`Reader.readWith` returns. What is wrong with the order of the tokens is part of the reading,
and it may also be reported when it is found, in whatever monad the reports are made.

Statements about reading rest on the equations of `Reader.phrase` and `Reader.chain`,
which report to nobody, and on `Reader.phrase_chain_induction`, which follows the calls that
the two make. Whether the line ends behind a term is not looked at here.
-/
namespace Calculator

/-- The three ways in which phrases nest, from the tightest to the loosest. -/
inductive Level where
  | primary | factor | term
  deriving DecidableEq, Repr

namespace Level

def rank : Level → Nat
  | .primary => 0
  | .factor => 1
  | .term => 2

/-- The level of the phrases that a phrase is a chain of. -/
def operand? : Level → Option Level
  | .primary => none
  | .factor => some .primary
  | .term => some .factor

/-- Whether a token of the kind joins phrases of the level into a chain. -/
def joins (level : Level) (kind : Token.Kind) : Bool :=
  match level, Operator.ofKind? kind with
  | .primary, some op => op.isMultiplicative
  | .factor, some op => op.isAdditive
  | _, _ => false

theorem rank_of_operand? {level operand : Level} (h : level.operand? = some operand) :
    level.rank = operand.rank + 1 := by
  cases level <;> cases h <;> rfl

theorem joins_endOfInput (level : Level) : level.joins .endOfInput = false := by
  cases level <;> rfl

end Level

/-- What a reader is asked for: a phrase, or the rest of a chain behind its left part. -/
inductive Goal where
  | phrase (level : Level)
  | chain (level : Level) (left : Expr)

/-- Goals of a lower rank may be asked for without taking a token. -/
def Goal.rank : Goal → Nat
  | .phrase level => 2 * level.rank
  | .chain level _ => 2 * level.rank + 1

/-- A reading that gives back no more tokens than it was given. -/
structure Bounded (r : Reader) where
  reading : Reading Expr
  le : reading.reader.ahead.length ≤ r.ahead.length

namespace Reader

section

variable {m : Type → Type} [Monad m]

/-- Reads what is asked for, taking tokens from the reader as they come. What expecting a token
gives rise to is reported at once. -/
def readWith (report : List Diagnostic → m Unit) (goal : Goal) (r : Reader) : m (Bounded r) :=
  match goal with
  | .phrase level =>
      match ho : level.operand? with
      | some operand => do
          let ⟨first, hf⟩ ← r.readWith report (.phrase operand)
          let ⟨all, ha⟩ ← first.reader.readWith report (.chain operand first.result)
          return ⟨⟨all.result, first.diagnostics ++ all.diagnostics, all.reader⟩,
            Nat.le_trans ha hf⟩
      | none =>
          if hk : r.current.kind = .openParen then do
            have hr := r.rest_ahead_length_lt (by simp [hk])
            let ⟨inner, hi⟩ ← r.rest.readWith report (.phrase .term)
            let closing := inner.reader.expect .closeParen
            report closing.diagnostics
            return ⟨⟨.group r.current inner.result closing.result,
              inner.diagnostics ++ closing.diagnostics, closing.reader⟩,
              Nat.le_trans (inner.reader.expect_reader_le _) (Nat.le_trans hi (Nat.le_of_lt hr))⟩
          else do
            let number := r.expect .number
            report number.diagnostics
            return ⟨⟨.number number.result, number.diagnostics, number.reader⟩,
              r.expect_reader_le .number⟩
  | .chain level left =>
      if hk : level.joins r.current.kind then do
        have hr := r.rest_ahead_length_lt fun he => by simp [he, Level.joins_endOfInput] at hk
        let ⟨right, hi⟩ ← r.rest.readWith report (.phrase level)
        let ⟨all, ha⟩ ←
          right.reader.readWith report (.chain level (.binary left r.current right.result))
        return ⟨⟨all.result, right.diagnostics ++ all.diagnostics, all.reader⟩,
          Nat.le_trans ha (Nat.le_trans hi (Nat.le_of_lt hr))⟩
      else return ⟨⟨left, [], r⟩, Nat.le_refl _⟩
termination_by 6 * r.ahead.length + goal.rank
decreasing_by
  · have := Level.rank_of_operand? ho
    simp only [Goal.rank]
    omega
  · have := Level.rank_of_operand? ho
    simp only [Goal.rank]
    omega
  · simp only [Goal.rank, Level.rank]
    omega
  · simp only [Goal.rank]
    omega
  · simp only [Goal.rank]
    omega

end

/-- Reads what is asked for and reports to nobody. -/
def read (goal : Goal) (r : Reader) : Bounded r := Id.run (r.readWith (fun _ => pure ()) goal)

/-- Reads a phrase of a level. -/
def phrase (level : Level) (r : Reader) : Reading Expr :=
  (r.read (.phrase level)).reading

/-- Reads the rest of a chain of phrases of a level. -/
def chain (level : Level) (left : Expr) (r : Reader) : Reading Expr :=
  (r.read (.chain level left)).reading

theorem phrase_reader_le (level : Level) (r : Reader) :
    (r.phrase level).reader.ahead.length ≤ r.ahead.length :=
  (r.read (.phrase level)).le

theorem chain_reader_le (level : Level) (left : Expr) (r : Reader) :
    (r.chain level left).reader.ahead.length ≤ r.ahead.length :=
  (r.read (.chain level left)).le

theorem phrase_of_operand? {level operand : Level} (h : level.operand? = some operand)
    (r : Reader) : r.phrase level =
      let first := r.phrase operand
      let all := first.reader.chain operand first.result
      ⟨all.result, first.diagnostics ++ all.diagnostics, all.reader⟩ := by
  cases level <;> cases h <;> (rw [phrase, read, readWith]; rfl)

theorem phrase_primary_of_open {r : Reader} (h : r.current.kind = .openParen) :
    r.phrase .primary =
      let inner := r.rest.phrase .term
      let closing := inner.reader.expect .closeParen
      ⟨.group r.current inner.result closing.result,
        inner.diagnostics ++ closing.diagnostics, closing.reader⟩ := by
  rw [phrase, read, readWith]
  simp only [Level.operand?, h, ↓reduceDIte]
  rfl

theorem phrase_primary_of_not_open {r : Reader} (h : r.current.kind ≠ .openParen) :
    r.phrase .primary =
      let number := r.expect .number
      ⟨.number number.result, number.diagnostics, number.reader⟩ := by
  rw [phrase, read, readWith]
  simp only [Level.operand?, h, ↓reduceDIte]
  rfl

theorem chain_of_joins {level : Level} {r : Reader} (h : level.joins r.current.kind = true)
    (left : Expr) : r.chain level left =
      let right := r.rest.phrase level
      let all := right.reader.chain level (.binary left r.current right.result)
      ⟨all.result, right.diagnostics ++ all.diagnostics, all.reader⟩ := by
  rw [chain, read, readWith]
  simp only [h, ↓reduceDIte]
  rfl

theorem chain_of_not_joins {level : Level} {r : Reader}
    (h : level.joins r.current.kind = false) (left : Expr) : r.chain level left = ⟨left, [], r⟩ := by
  rw [chain, read, readWith]
  simp [h]

/-- What holds of every phrase and every rest of a chain, given that it holds of the
phrases and rests that they are read by. -/
theorem phrase_chain_induction {P : Level → Reader → Prop} {Q : Level → Expr → Reader → Prop}
    (joined : ∀ level operand r, level.operand? = some operand → P operand r →
      Q operand (r.phrase operand).result (r.phrase operand).reader → P level r)
    (group : ∀ r, r.current.kind = .openParen → P .term r.rest → P .primary r)
    (number : ∀ r, r.current.kind ≠ .openParen → P .primary r)
    (link : ∀ level left r, level.joins r.current.kind = true → P level r.rest →
      Q level (.binary left r.current (r.rest.phrase level).result) (r.rest.phrase level).reader →
      Q level left r)
    (stop : ∀ level left r, level.joins r.current.kind = false → Q level left r) :
    (∀ level r, P level r) ∧ ∀ level left r, Q level left r := by
  have main := readWith.induct (fun goal r => match goal with
    | .phrase level => P level r
    | .chain level left => Q level left r)
    (fun r level operand ho p q =>
      joined level operand r ho p (q _ (phrase_reader_le operand r)))
    (fun r level ho hk _ p => by
      cases level <;> cases ho
      exact group r hk p)
    (fun r level ho hk => by
      cases level <;> cases ho
      exact number r hk)
    (fun r level left hk _ p q =>
      link level left r hk p (q _ (phrase_reader_le level r.rest)))
    (fun r level left hk => stop level left r (Bool.eq_false_iff.2 hk))
  exact ⟨fun level => main (.phrase level), fun level left => main (.chain level left)⟩

end Reader

end Calculator
