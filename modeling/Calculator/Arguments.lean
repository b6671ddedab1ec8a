/-!
# Arguments

What the arguments of a run ask for. They are read from left to right. There is one
switch, which may be given once, in a long or in a short form, and there is at most one
expression. Two dashes end the switches; a single dash and the empty argument are
expressions. The first argument that cannot be accepted, or that asks for the version
or for help, settles the request; what follows is not looked at.

Whether an expression means anything is not asked here.
-/
namespace Calculator

inductive Misuse where
  | unknownOption (argument : String)
  | repeatedOption (argument : String)
  | extraArgument (argument : String)
  deriving DecidableEq, Repr

/-- What the arguments ask for. -/
inductive Request where
  | evaluate (showTree : Bool) (expression : String)
  | converse (showTree : Bool)
  | version
  | help
  | misuse (m : Misuse)
  deriving DecidableEq, Repr

inductive Switch where
  | showTree | version | help | unknown
  deriving DecidableEq, Repr

namespace Switch

def ofLetter : Char → Switch
  | 't' => .showTree
  | 'V' => .version
  | 'h' => .help
  | _ => .unknown

def ofWord (argument : String) : Switch :=
  if argument = "--show-tree" then .showTree
  else if argument = "--version" then .version
  else if argument = "--help" then .help
  else .unknown

/-- The switches that an argument stands for; none of an argument that is an expression. -/
def ofArgument? (argument : String) : Option (List Switch) :=
  match argument.toList with
  | '-' :: '-' :: _ => some [ofWord argument]
  | '-' :: c :: cs => some ((c :: cs).map ofLetter)
  | _ => none

end Switch

/-- What the arguments so far have said. -/
structure Settings where
  showTree : Bool := false
  expression? : Option String := none
  deriving DecidableEq, Repr

namespace Settings

def request (s : Settings) : Request :=
  match s.expression? with
  | some expression => .evaluate s.showTree expression
  | none => .converse s.showTree

/-- Takes the switches of an argument, unless one of them settles the request. -/
def takeSwitches (s : Settings) (argument : String) : List Switch → Except Request Settings
  | [] => .ok s
  | .showTree :: switches =>
      if s.showTree then .error (.misuse (.repeatedOption argument))
      else takeSwitches { s with showTree := true } argument switches
  | .version :: _ => .error .version
  | .help :: _ => .error .help
  | .unknown :: _ => .error (.misuse (.unknownOption argument))

def takeExpression (s : Settings) (argument : String) : Except Request Settings :=
  match s.expression? with
  | some _ => .error (.misuse (.extraArgument argument))
  | none => .ok { s with expression? := some argument }

/-- Takes an argument; after two dashes every argument is an expression. -/
def takeArgument (s : Settings) (onlyExpressions : Bool) (argument : String) :
    Except Request Settings :=
  match if onlyExpressions then none else Switch.ofArgument? argument with
  | some switches => s.takeSwitches argument switches
  | none => s.takeExpression argument

def takeArguments (s : Settings) (onlyExpressions : Bool) : List String → Request
  | [] => s.request
  | argument :: arguments =>
      if !onlyExpressions && argument = "--" then s.takeArguments true arguments
      else match s.takeArgument onlyExpressions argument with
        | .ok s => s.takeArguments onlyExpressions arguments
        | .error request => request

end Settings

def Request.ofArguments (arguments : List String) : Request :=
  ({} : Settings).takeArguments false arguments

/-- Only a conversation looks at the standard input. -/
def Request.readsInput : Request → Bool
  | .converse _ => true
  | _ => false

end Calculator
