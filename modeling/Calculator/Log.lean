import Calculator.Line
import Calculator.Printable

/-!
# The log

While a line is worked on, each stage leaves records of what it meets. The scanner
traces every token that it reads and reports every diagnostic, the diagnostic of a token
before the token. The parser reports its diagnostics. The evaluator reports a fault where
an operator fails, and nothing on the way out of the operators around it.

A threshold decides which records are kept. It never changes the outcome of a line.

The stages are those of `Cursor.stepsWith`, `Reader.readWith` and `Expr.evaluateWith`; what
is said here is what they leave when there is something to attend to or to report.

A trace shows the text of its token where the exact characters matter: between double
quotes, with a backslash before a double quote and a backslash, with short names for the
null character, the tab and the two line ends, and with the code point in place of every
other character that is not printable. A single quote stays as it is. A text that is absent
is shown as a word of its own, which no quoted text looks like.
-/
namespace Calculator

/-- The code point of a character in lower-case hexadecimal digits. -/
def codePoint (c : Char) : String :=
  "\\u\x7b" ++ String.ofList (Nat.toDigits 16 c.toNat) ++ "\x7d"

def quoteChar (c : Char) : String :=
  if c = '\x00' then "\\0"
  else if c = '\t' then "\\t"
  else if c = '\r' then "\\r"
  else if c = '\n' then "\\n"
  else if c = '\x22' then "\\\""
  else if c = '\x5c' then "\\\\"
  else if isPrintable c then c.toString
  else codePoint c

def quote (text : String) : String :=
  "\"" ++ String.join (text.toList.map quoteChar) ++ "\""

def quote? : Option String → String
  | none => "None"
  | some text => "Some(" ++ quote text ++ ")"

example : quote? (some "a'b") = "Some(\"a'b\")" := by decide +kernel

example : quoteChar '\x7f' = "\\u\x7b7f\x7d" := by decide +kernel

namespace Log

inductive Severity where
  | trace | debug
  deriving DecidableEq, Repr

/-- From which severity on records are kept. -/
inductive Threshold where
  | trace | debug | info | off
  deriving DecidableEq, Repr

def Threshold.keeps : Threshold → Severity → Bool
  | .trace, _ => true
  | .debug, .debug => true
  | _, _ => false

inductive Stage where
  | scanner | parser | evaluator
  deriving DecidableEq, Repr

structure Record where
  severity : Severity
  stage : Stage
  message : String
  deriving DecidableEq, Repr

/-- A result and the records that were left on the way to it. -/
structure Logged (α : Type) where
  result : α
  records : List Record
  deriving DecidableEq

/-- Work that leaves records behind those that are there. -/
abbrev Logging := StateM (Array Record)

/-- Leaves those of the records that a threshold keeps. -/
def note (threshold : Threshold) (records : List Record) : Logging Unit :=
  modify fun (log : Array Record) =>
    log ++ records.filter fun record => threshold.keeps record.severity

def ofDiagnostic (stage : Stage) (d : Diagnostic) : Record := ⟨.debug, stage, d.message⟩

def ofToken (t : Token) : Record :=
  ⟨.trace, .scanner, "scanned <" ++ t.kind.name ++ "> at " ++ toString t.position ++ ": " ++
    quote? t.text⟩

def ofFault (f : Fault) : Record := ⟨.debug, .evaluator, "evaluation failed: " ++ f.message⟩

/-- The records of a scanned token. The end of input has none. -/
def ofScanned (s : Scanned) : List Record :=
  (s.diagnostic?.map (ofDiagnostic .scanner)).toList ++
    if s.token.kind = .endOfInput then [] else [ofToken s.token]

def attend (threshold : Threshold) (s : Scanned) : Logging Unit := note threshold (ofScanned s)

def report (threshold : Threshold) (ds : List Diagnostic) : Logging Unit :=
  note threshold (ds.map (ofDiagnostic .parser))

def reportFault (threshold : Threshold) (f : Fault) : Logging Unit := note threshold [ofFault f]

/-- The outcome of a text. -/
def outcome (threshold : Threshold) (text : String) : Logging Outcome := do
  let line ← Line.ofTextWith (attend threshold) (report threshold) text
  line.outcomeWith (reportFault threshold)

/-- The outcome of a text, and all records that a threshold keeps. -/
def runWith (threshold : Threshold) (text : String) : Logged Outcome :=
  let (result, log) := ((outcome threshold text).run #[]).run
  ⟨result, log.toList⟩

end Log

end Calculator
