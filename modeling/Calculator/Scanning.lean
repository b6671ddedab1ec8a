import Calculator.Lexeme

/-!
# Scanning

A cursor is a place in a line together with the characters that are still to be read.
One step reads one token and yields the cursor behind it. A cursor is a value, so the
same step may be taken as often as one likes, always with the same answer. At the end
of the line a step reads the end-of-input token and stays where it is.

Places are offsets in bytes of the UTF-8 form of the line, while the line is read as a
list of characters. `byteLength` carries a list of characters to the number of bytes
that it takes.

`Cursor.stepsWith` takes all the steps up to and including the one that reads the end of
input, and lets somebody attend to each of them. If nobody does, these are the steps
`Cursor.steps`, and the tokens and the lexical diagnostics of a text are read off them.

Whoever reads a line token by token may also look at a token without going on, remember
a place, and return to it or to the start (`Scanning`). The diagnostics of a token are
then collected each time that the token is read, whether or not the cursor goes on
behind it.
-/
namespace Calculator

def byteLength (cs : List Char) : Nat :=
  cs.foldr (fun c n => c.utf8Size + n) 0

theorem byteLength_nil : byteLength [] = 0 := rfl

theorem byteLength_cons (c : Char) (cs : List Char) :
    byteLength (c :: cs) = c.utf8Size + byteLength cs := rfl

theorem byteLength_append (cs ds : List Char) :
    byteLength (cs ++ ds) = byteLength cs + byteLength ds := by
  induction cs with
  | nil => simp [byteLength_nil]
  | cons c cs ih => simp only [List.cons_append, byteLength_cons, ih, Nat.add_assoc]

theorem byteLength_pos {cs : List Char} (h : cs ≠ []) : 0 < byteLength cs := by
  cases cs with
  | nil => exact absurd rfl h
  | cons c cs =>
    have := c.utf8Size_pos
    simp only [byteLength_cons]
    omega

theorem utf8ByteSize_ofList (cs : List Char) :
    (String.ofList cs).utf8ByteSize = byteLength cs := by
  induction cs with
  | nil => rfl
  | cons c cs ih =>
    have h : String.ofList (c :: cs) = String.singleton c ++ String.ofList cs := by
      simp
    rw [h, String.utf8ByteSize_append, ih, byteLength_cons]
    simp

theorem byteLength_toList (s : String) : byteLength s.toList = s.utf8ByteSize := by
  rw [← utf8ByteSize_ofList, String.ofList_toList]

structure Cursor where
  rest : List Char
  /-- Offset in bytes of the first character of the rest. -/
  position : Nat
  deriving DecidableEq, Repr

/-- What one step of a cursor yields. -/
structure Scanned where
  token : Token
  diagnostic? : Option Diagnostic
  cursor : Cursor
  deriving DecidableEq, Repr

namespace Cursor

def ofText (text : String) : Cursor := ⟨text.toList, 0⟩

def atEnd (c : Cursor) : Bool := c.rest.isEmpty

def next (c : Cursor) : Scanned :=
  match Lexeme.split? c.rest with
  | none => ⟨Token.endOfInput c.position, none, c⟩
  | some (l, rest) =>
      ⟨l.token c.position, l.diagnostic? c.position, ⟨rest, c.position + byteLength l.chars⟩⟩

theorem next_of_nil {c : Cursor} (h : c.rest = []) :
    c.next = ⟨Token.endOfInput c.position, none, c⟩ := by
  simp [next, h, Lexeme.split?]

theorem next_of_split? {c : Cursor} {l : Lexeme} {rest : List Char}
    (h : Lexeme.split? c.rest = some (l, rest)) :
    c.next = ⟨l.token c.position, l.diagnostic? c.position,
      ⟨rest, c.position + byteLength l.chars⟩⟩ := by
  simp [next, h]

theorem rest_next_length_lt {c : Cursor} (h : c.rest ≠ []) :
    c.next.cursor.rest.length < c.rest.length := by
  cases hs : Lexeme.split? c.rest with
  | none => exact absurd (Lexeme.split?_eq_none_iff.1 hs) h
  | some s =>
    rw [next_of_split? hs]
    exact Lexeme.length_lt_of_split? hs

section

variable {m : Type → Type} [Monad m]

/-- The steps to the end of the line, the last of which reads the end of input. Each is attended
to when it is taken. -/
def stepsWith (attend : Scanned → m Unit) (c : Cursor) : m (List Scanned) := do
  attend c.next
  if _h : c.rest = [] then return [c.next]
  else return c.next :: (← c.next.cursor.stepsWith attend)
termination_by c.rest.length
decreasing_by exact rest_next_length_lt _h

end

/-- The steps to the end of the line, with nobody attending. -/
def steps (c : Cursor) : List Scanned := Id.run (c.stepsWith fun _ => pure ())

theorem steps_of_nil {c : Cursor} (h : c.rest = []) : c.steps = [c.next] := by
  rw [steps, stepsWith]
  simp [h]

theorem steps_of_ne_nil {c : Cursor} (h : c.rest ≠ []) :
    c.steps = c.next :: c.next.cursor.steps := by
  rw [steps, stepsWith]
  simp only [h, ↓reduceDIte]
  rfl

/-- What holds of every place of a line, given that it holds of the end and of every place from
which a step leads to one where it holds. -/
theorem steps_induction {P : Cursor → Prop} (last : ∀ c : Cursor, c.rest = [] → P c)
    (more : ∀ c : Cursor, c.rest ≠ [] → P c.next.cursor → P c) (c : Cursor) : P c :=
  if h : c.rest = [] then last c h else more c h (steps_induction last more c.next.cursor)
termination_by c.rest.length
decreasing_by exact rest_next_length_lt h

end Cursor

/-- The tokens of a text, blanks and bad characters included, with the end of input last. -/
def tokens (text : String) : List Token :=
  (Cursor.ofText text).steps.map Scanned.token

/-- The diagnostics of the tokens of a text, in their order. -/
def lexicalDiagnostics (text : String) : List Diagnostic :=
  (Cursor.ofText text).steps.filterMap Scanned.diagnostic?

example : (tokens "7 é").map (fun t => (t.kind, t.position)) =
    [(.number, 0), (.whitespace, 1), (.bad, 2), (.endOfInput, 4)] := by decide +kernel

structure Scanning where
  start : Cursor
  cursor : Cursor
  saved : Cursor
  diagnostics : List Diagnostic
  deriving DecidableEq, Repr

namespace Scanning

inductive Step where
  | next | peek | save | restore | reset
  deriving DecidableEq, Repr

/-- Nothing has been read, and the start of the line is the saved place. -/
def ofText (text : String) : Scanning :=
  let start := Cursor.ofText text
  ⟨start, start, start, []⟩

/-- Reads the token at the cursor without going on. -/
def peek (s : Scanning) : Scanning :=
  { s with diagnostics := s.diagnostics ++ s.cursor.next.diagnostic?.toList }

/-- Takes a step, and yields the token if the step reads one. -/
def step (s : Scanning) : Step → Scanning × Option Token
  | .next => ({ s.peek with cursor := s.cursor.next.cursor }, some s.cursor.next.token)
  | .peek => (s.peek, some s.cursor.next.token)
  | .save => ({ s with saved := s.cursor }, none)
  | .restore => ({ s with cursor := s.saved }, none)
  | .reset => ({ s with cursor := s.start }, none)

/-- What every step leads to and yields. -/
def run (s : Scanning) : List Step → List (Scanning × Option Token)
  | [] => []
  | step :: steps => s.step step :: (s.step step).1.run steps

end Scanning

end Calculator
