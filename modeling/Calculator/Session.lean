import Calculator.Line
import Calculator.Outline

/-!
# Sessions

A session answers one line after the other. All that it remembers between two lines is
whether trees are shown. A line that is exactly one of four words is a command; every
other line, however close to a command, is a line to evaluate.

A reply is data, and `Reply.text` is how it reads. The tree of a line is shown whether or
not the line has a value.
-/
namespace Calculator

inductive Command where
  | toggleTree | clear
  deriving DecidableEq, Repr

def Command.ofLine? (line : String) : Option Command :=
  if line = ".showTree" ∨ line = ".st" then some .toggleTree
  else if line = ".clear" ∨ line = ".cls" then some .clear
  else none

inductive Reply where
  /-- Trees are shown from now on, or no longer. -/
  | treeToggled (shown : Bool)
  /-- Whoever holds the screen should clear it. -/
  | clear
  | evaluated (tree? : Option String) (outcome : Outcome)

namespace Reply

def isFailure : Reply → Bool
  | .evaluated _ (.error _) => true
  | _ => false

def text : Reply → String
  | .treeToggled shown => "Show Tree: " ++ if shown then "On" else "Off"
  | .clear => ""
  | .evaluated tree? outcome =>
      (match tree? with
        | some tree => tree ++ "\n"
        | none => "") ++
      match outcome with
        | .ok v => numeral v
        | .error f => f.message

end Reply

structure Session where
  showTree : Bool := false
  deriving DecidableEq, Repr

namespace Session

def evaluate (s : Session) (text : String) : Reply :=
  let line := Line.ofText text
  let tree? := if s.showTree then some line.root.render else none
  -- The line is read once for its tree and its value, so its diagnostics are asked for here.
  let outcome := if line.isWellFormed then line.root.evaluate.mapError .fault
    else .error (.diagnostics line.diagnostics)
  .evaluated tree? outcome

def answer (s : Session) (line : String) : Session × Reply :=
  match Command.ofLine? line with
  | some .toggleTree => ({ s with showTree := !s.showTree }, .treeToggled !s.showTree)
  | some .clear => (s, .clear)
  | none => (s, s.evaluate line)

/-- What can happen to a session: a line, or a new setting from outside. -/
inductive Step where
  | line (text : String)
  | setShowTree (shown : Bool)
  deriving DecidableEq, Repr

def step (s : Session) : Step → Session × Option Reply
  | .line text => ((s.answer text).1, some (s.answer text).2)
  | .setShowTree shown => ({ s with showTree := shown }, none)

/-- What every step leads to, and the replies to lines. -/
def run (s : Session) : List Step → List (Session × Option Reply)
  | [] => []
  | step :: steps => s.step step :: (s.step step).1.run steps

end Session

end Calculator
