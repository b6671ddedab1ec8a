import Calculator.Scanning

/-!
# Readers

A reader holds the tokens of a line that are still to be taken. Blanks and bad characters
are left out of them; they have had their say in the lexical diagnostics. The end of
input is the last token, and once it has been taken it stays the current one for ever.

Expecting a kind of token never fails. If another kind is current, nothing is taken; a
placeholder stands in for the missing token, and a diagnostic says so.
-/
namespace Calculator

structure Reader where
  /-- The tokens not taken yet. -/
  ahead : List Token
  /-- Where the line ends. -/
  endPosition : Nat
  deriving DecidableEq, Repr

/-- What was read, the diagnostics that arose on the way, and the reader behind it. -/
structure Reading (α : Type) where
  result : α
  diagnostics : List Diagnostic
  reader : Reader
  deriving DecidableEq, Repr

/-- Blanks and bad characters have no place in the grammar of a line. -/
def Token.isMeaningful (t : Token) : Bool :=
  t.kind ≠ .whitespace && t.kind ≠ .bad

namespace Reader

def ofText (text : String) : Reader where
  ahead := (tokens text).filter Token.isMeaningful
  endPosition := text.utf8ByteSize

def current (r : Reader) : Token := r.ahead.headD (Token.endOfInput r.endPosition)

/-- The reader behind the current token. -/
def rest (r : Reader) : Reader := { r with ahead := r.ahead.tail }

def next (r : Reader) : Reading Token := ⟨r.current, [], r.rest⟩

def expect (r : Reader) (kind : Token.Kind) : Reading Token :=
  if r.current.kind = kind then r.next
  else ⟨Token.placeholder kind r.current.position,
    [⟨.unexpectedToken r.current.kind kind, r.current.position⟩], r⟩

theorem rest_ahead_length_le (r : Reader) : r.rest.ahead.length ≤ r.ahead.length := by
  simp [rest]

theorem ahead_ne_nil_of_current {r : Reader} (h : r.current.kind ≠ .endOfInput) :
    r.ahead ≠ [] := by
  intro hr
  simp [current, hr, Token.endOfInput] at h

/-- Taking any token but the end of input leaves fewer tokens. -/
theorem rest_ahead_length_lt {r : Reader} (h : r.current.kind ≠ .endOfInput) :
    r.rest.ahead.length < r.ahead.length := by
  have := List.length_pos_iff.2 (ahead_ne_nil_of_current h)
  simp only [rest, List.length_tail]
  omega

theorem expect_reader_le (r : Reader) (kind : Token.Kind) :
    (r.expect kind).reader.ahead.length ≤ r.ahead.length := by
  unfold expect
  split
  · exact r.rest_ahead_length_le
  · exact Nat.le_refl _

end Reader

end Calculator
