import Calculator.Grammar

/-!
# Tapes

A tape has all the tokens of a line side by side, those that have been taken and those that
are still ahead, a position among them, and the diagnostics recorded so far, which are about the
order of the tokens only. Whoever works on it may ask for the current token, take it, expect a
kind of token, or read a phrase of any level, as often as one likes and in any order.

A place beyond the last token stands for the last one, and taking a token where none is left
takes nothing. Nothing else is looked after here. On a tape without tokens there is no current
one, and a chain is read on for as long as the current token joins. `Reads` therefore describes
reading by its steps, and a phrase that is never finished has no place in it. What becomes of the
tape of a text is said in `Calculator.Proofs.Tapes`.
-/
namespace Calculator

structure Tape where
  /-- The tokens of the line, whether taken or not. -/
  buffer : List Token
  position : Nat
  recorded : List Diagnostic
  deriving DecidableEq, Repr

namespace Tape

def ofText (text : String) : Tape where
  buffer := (tokens text).filter Token.isMeaningful
  position := 0
  recorded := []

/-- The token a number of places behind the position. -/
def peek? (s : Tape) (offset : Nat) : Option Token :=
  s.buffer[min (s.position + offset) (s.buffer.length - 1)]?

def current? (s : Tape) : Option Token := s.peek? 0

/-- The tape with one more token taken, if one is left. -/
def advanced (s : Tape) : Tape :=
  if s.position < s.buffer.length then { s with position := s.position + 1 } else s

/-- The tape with one more diagnostic. -/
def record (s : Tape) (d : Diagnostic) : Tape := { s with recorded := s.recorded ++ [d] }

def next? (s : Tape) : Option (Token × Tape) := do
  let token ← s.current?
  return (token, s.advanced)

def expect? (s : Tape) (kind : Token.Kind) : Option (Token × Tape) := do
  let token ← s.current?
  if token.kind = kind then s.next?
  else
    return (Token.placeholder kind token.position,
      s.record ⟨.unexpectedToken token.kind kind, token.position⟩)

theorem next?_eq {s : Tape} {t : Token} (h : s.current? = some t) :
    s.next? = some (t, s.advanced) := by
  simp [next?, h]

theorem expect?_of_eq {s : Tape} {t : Token} {k : Token.Kind} (h : s.current? = some t)
    (hk : t.kind = k) : s.expect? k = some (t, s.advanced) := by
  simp [expect?, h, hk, next?_eq h]

theorem expect?_of_ne {s : Tape} {t : Token} {k : Token.Kind} (h : s.current? = some t)
    (hk : t.kind ≠ k) : s.expect? k =
      some (Token.placeholder k t.position, s.record ⟨.unexpectedToken t.kind k, t.position⟩) := by
  simp [expect?, h, hk]

/-- Reading what is asked for ends with an expression, and leaves a tape. -/
inductive Reads : Goal → Tape → Expr → Tape → Prop
  | joined {level operand : Level} {first all : Expr} {s u v : Tape} :
      level.operand? = some operand → Reads (.phrase operand) s first u →
      Reads (.chain operand first) u all v → Reads (.phrase level) s all v
  | group {t opening closing : Token} {inner : Expr} {s u v w : Tape} :
      s.current? = some t → t.kind = .openParen → s.next? = some (opening, u) →
      Reads (.phrase .term) u inner v → v.expect? .closeParen = some (closing, w) →
      Reads (.phrase .primary) s (.group opening inner closing) w
  | number {t number : Token} {s u : Tape} :
      s.current? = some t → t.kind ≠ .openParen → s.expect? .number = some (number, u) →
      Reads (.phrase .primary) s (.number number) u
  | link {level : Level} {t operator : Token} {left right all : Expr} {s u v w : Tape} :
      s.current? = some t → level.joins t.kind = true → s.next? = some (operator, u) →
      Reads (.phrase level) u right v →
      Reads (.chain level (.binary left operator right)) v all w →
      Reads (.chain level left) s all w
  | stop {level : Level} {t : Token} {left : Expr} {s : Tape} :
      s.current? = some t → level.joins t.kind = false → Reads (.chain level left) s left s

/-- What a tape may be asked for. -/
inductive Call where
  | current | next
  | expect (kind : Token.Kind)
  | phrase (level : Level)
  deriving DecidableEq, Repr

/-- A call ends, yields a node and leaves a tape. -/
inductive Answers (s : Tape) : Call → Node → Tape → Prop
  | current {t : Token} : s.current? = some t → Answers s .current (.token t) s
  | next {t : Token} {u : Tape} : s.next? = some (t, u) → Answers s .next (.token t) u
  | expect {kind : Token.Kind} {t : Token} {u : Tape} : s.expect? kind = some (t, u) →
      Answers s (.expect kind) (.token t) u
  | phrase {level : Level} {e : Expr} {u : Tape} : Reads (.phrase level) s e u →
      Answers s (.phrase level) (.expr e) u

/-- Calls one after the other, each on the tape that the one before it leaves. -/
inductive Runs : Tape → List Call → List Node → Tape → Prop
  | nil (s : Tape) : Runs s [] [] s
  | cons {s u v : Tape} {call : Call} {node : Node} {calls : List Call} {nodes : List Node} :
      s.Answers call node u → Runs u calls nodes v →
      Runs s (call :: calls) (node :: nodes) v

end Tape

end Calculator
