/-!
# Tokens and diagnostics

A token is a classified piece of a line. It remembers where it starts, as an offset
in bytes of the UTF-8 form of the line. The reader of a line may put a token in the
place of a missing one; such a token is marked as a placeholder, and it never has a
text or a value. Tokens here are plain data. Which tokens a line consists of is said in
`Calculator.Scanning`.

A diagnostic says what is wrong with the wording of a line. It never stops the reading
of the line, so that one line may collect several of them. It is a cause and the offset
in bytes that it refers to; the message is derived from both. A diagnostic that somebody
else has worded is carried as it is (`Cause.stated`). Reading a line never produces one
of these.
-/
namespace Calculator

inductive Token.Kind where
  | number | whitespace | plus | minus | star | slash | openParen | closeParen | bad | endOfInput
  deriving DecidableEq, Repr

/-- The name of a kind in messages and outlines. -/
def Token.Kind.name : Token.Kind → String
  | .number => "Number"
  | .whitespace => "Whitespace"
  | .plus => "Plus"
  | .minus => "Minus"
  | .star => "Star"
  | .slash => "Slash"
  | .openParen => "OpenParen"
  | .closeParen => "CloseParen"
  | .bad => "Bad"
  | .endOfInput => "EOF"

theorem Token.Kind.name_injective {k l : Token.Kind} (h : k.name = l.name) : k = l := by
  cases k <;> cases l <;> simp_all [name]

structure Token where
  kind : Token.Kind
  /-- Offset in bytes of the first character. -/
  position : Nat
  /-- The characters of the line, where they matter. -/
  text : Option String := none
  /-- What a number token stands for. -/
  value : Option Int32 := none
  isPlaceholder : Bool := false
  deriving DecidableEq, Repr

def Token.endOfInput (position : Nat) : Token where
  kind := .endOfInput
  position := position

/-- A token that stands in for a missing one. -/
def Token.placeholder (kind : Token.Kind) (position : Nat) : Token where
  kind := kind
  position := position
  isPlaceholder := true

inductive Diagnostic.Cause where
  /-- No token starts with this character. -/
  | badCharacter (char : Char)
  /-- A run of digits beyond the largest value of a number. -/
  | invalidInteger (digits : String)
  /-- One kind of token stands where another has to. -/
  | unexpectedToken (actual expected : Token.Kind)
  | stated (message : String)
  deriving DecidableEq, Repr

structure Diagnostic where
  cause : Diagnostic.Cause
  position : Nat
  deriving DecidableEq, Repr

def Diagnostic.message (d : Diagnostic) : String :=
  match d.cause with
  | .badCharacter c => "Bad character '" ++ c.toString ++ "' at position " ++ toString d.position ++ "."
  | .invalidInteger digits =>
      "The value " ++ digits ++ " at position " ++ toString d.position ++ " is not a valid integer."
  | .unexpectedToken actual expected =>
      "Unexpected token <" ++ actual.name ++ "> at position " ++ toString d.position ++
        ", expected <" ++ expected.name ++ ">."
  | .stated message => message

end Calculator
