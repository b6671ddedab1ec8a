import Calculator.Grammar
import Calculator.Evaluation

/-!
# Lines

A line is read as one term with nothing behind it. What becomes of it is the tree of the
term, the token that ends it, and the diagnostics: first those of single tokens, then
those of their order. The tree is always complete, but only a line without diagnostics
is evaluated.

The result of a line is its value or the reason why it has none. Where a line has
diagnostics they are the reason, whatever its tree would have given.
-/
namespace Calculator

structure Line where
  /-- Diagnostics of single tokens. -/
  lexical : List Diagnostic
  /-- Diagnostics of the order of the tokens. -/
  syntactic : List Diagnostic
  root : Expr
  /-- The end of input, or a placeholder for it if tokens are left over. -/
  endToken : Token
  deriving DecidableEq, Repr

/-- Why a line has no value. -/
inductive Failure where
  | diagnostics (ds : List Diagnostic)
  | fault (f : Fault)
  deriving DecidableEq, Repr

def Failure.message : Failure → String
  | .diagnostics ds => "\n".intercalate (ds.map Diagnostic.message)
  | .fault f => f.message

/-- The value of a line, or why it has none. -/
abbrev Outcome := Except Failure Int32

namespace Line

section

variable {m : Type → Type} [Monad m]

/-- Reads a text as a line. Every token is attended to when it is scanned, and what is wrong with
the order of the tokens is reported when it is found. -/
def ofTextWith (attend : Scanned → m Unit) (report : List Diagnostic → m Unit) (text : String) :
    m Line := do
  let scanned ← (Cursor.ofText text).stepsWith attend
  let ahead := (scanned.map Scanned.token).filter Token.isMeaningful
  let ⟨root, _⟩ ← Reader.readWith report (.phrase .term) ⟨ahead, text.utf8ByteSize⟩
  let finish := root.reader.expect .endOfInput
  report finish.diagnostics
  return {
    lexical := scanned.filterMap Scanned.diagnostic?
    syntactic := root.diagnostics ++ finish.diagnostics
    root := root.result
    endToken := finish.result }

end

/-- A text as a line, with nobody told in between. -/
def ofText (text : String) : Line :=
  Id.run (ofTextWith (fun _ => pure ()) (fun _ => pure ()) text)

theorem ofText_eq (text : String) : ofText text =
    let root := (Reader.ofText text).phrase .term
    let finish := root.reader.expect .endOfInput
    { lexical := lexicalDiagnostics text
      syntactic := root.diagnostics ++ finish.diagnostics
      root := root.result
      endToken := finish.result } := rfl

def diagnostics (l : Line) : List Diagnostic := l.lexical ++ l.syntactic

def isWellFormed (l : Line) : Bool := l.diagnostics.isEmpty

/-- The outcome of a line. A fault is reported where it arises. -/
def outcomeWith {m : Type → Type} [Monad m] (report : Fault → m Unit) (l : Line) : m Outcome :=
  if l.isWellFormed then do return (← (l.root.evaluateWith report).run).mapError .fault
  else return .error (.diagnostics l.diagnostics)

def outcome (l : Line) : Outcome := Id.run (l.outcomeWith fun _ => pure ())

theorem outcome_eq (l : Line) : l.outcome =
    if l.isWellFormed then l.root.evaluate.mapError .fault
    else .error (.diagnostics l.diagnostics) := by
  rw [outcome, outcomeWith]
  split <;> rfl

end Line

/-- The value of a text, or why it has none. -/
def evaluate (text : String) : Outcome := (Line.ofText text).outcome

end Calculator
