import Calculator.Arguments
import Calculator.Conversation

/-!
# The command line

What a run of the program leaves behind, as a function of its request and its standard
input: an exit status, what goes to the standard output, and what goes to the standard
error stream. A request that names an expression never looks at the input. If it has no
value, its whole reply goes to the error stream and nothing is put out; in a conversation
all replies are put out, whatever they say.

The layout of the help and the wording of the complaints about arguments are a choice made
here. Nothing is proved about them.
-/
namespace Calculator

/-- What a run leaves behind. -/
structure Run where
  exitStatus : UInt32 := 0
  output : String := ""
  errors : String := ""
  deriving DecidableEq, Repr

def programName : String := "reckon"

def versionText : String := programName ++ " 0.1.0\n"

def helpText : String :=
  "A small integer arithmetic evaluator with recovering diagnostics\n\n" ++
  "Usage: " ++ programName ++ " [OPTIONS] [EXPRESSION]\n\n" ++
  "Arguments:\n" ++
  "  [EXPRESSION]  Expression to evaluate. Starts an interactive session when omitted\n\n" ++
  "Options:\n" ++
  "  -t, --show-tree  Print the syntax tree of each expression before its result\n" ++
  "  -h, --help       Print help\n" ++
  "  -V, --version    Print version\n"

def Misuse.message : Misuse → String
  | .unknownOption argument => "error: unknown option '" ++ argument ++ "'\n"
  | .repeatedOption argument => "error: repeated option '" ++ argument ++ "'\n"
  | .extraArgument argument => "error: unexpected argument '" ++ argument ++ "'\n"

def inputError : String := "Failed to read input: stream did not contain valid UTF-8\n"

def Request.run (input : List UInt8) : Request → Run
  | .evaluate showTree expression =>
      let reply := (Session.answer ⟨showTree⟩ expression).2
      if reply.isFailure then { exitStatus := 1, errors := reply.text ++ "\n" }
      else { output := reply.text ++ "\n" }
  | .converse showTree =>
      let c := Session.converse ⟨showTree⟩ ((inputLines input).map textOfBytes?)
      if c.isComplete then { output := c.printed }
      else { exitStatus := 1, output := c.printed, errors := inputError }
  | .version => { output := versionText }
  | .help => { output := helpText }
  | .misuse m => { exitStatus := 2, errors := m.message }

end Calculator
