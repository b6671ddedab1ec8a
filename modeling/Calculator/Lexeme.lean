import Calculator.Token

/-!
# Lexemes

A lexeme is the stretch of characters that one token covers. Digits run together, and
so do blanks; every other character stands alone. `Lexeme.split?` takes the first
lexeme off a list of characters. It always takes as many characters as it can, and
nothing between two lexemes is skipped.

The blanks are the characters that Unicode gives the property White_Space. Invisible
characters outside this property, such as the zero width space, are not blank.

A lexeme becomes a token once it is told where it starts. The value of a run of digits
is computed without a bound and compared with the largest value of a number only then,
so that leading zeros never matter.
-/
namespace Calculator

/-- The code points with the property White_Space, as ranges with both ends included. -/
def blankRanges : List (Nat × Nat) :=
  [(0x9, 0xD), (0x20, 0x20), (0x85, 0x85), (0xA0, 0xA0), (0x1680, 0x1680),
   (0x2000, 0x200A), (0x2028, 0x2029), (0x202F, 0x202F), (0x205F, 0x205F),
   (0x3000, 0x3000)]

def isBlank (c : Char) : Bool :=
  blankRanges.any fun r => r.1 ≤ c.toNat && c.toNat ≤ r.2

theorem isBlank_eq_false_of_isDigit {c : Char} (h : c.isDigit = true) : isBlank c = false := by
  simp only [Char.isDigit, Bool.and_eq_true, decide_eq_true_eq, ge_iff_le,
    UInt32.le_iff_toNat_le] at h
  have digits : ∀ n < 58, 48 ≤ n →
      blankRanges.any (fun r => r.1 ≤ n && n ≤ r.2) = false := by decide
  exact digits c.toNat (Nat.lt_succ_of_le h.2) h.1

example : (blankRanges.map fun r => r.2 + 1 - r.1).sum = 25 := by decide

/-- The kind of a token that starts with the character. -/
def Token.Kind.ofChar (c : Char) : Token.Kind :=
  if c.isDigit then .number
  else if isBlank c then .whitespace
  else match c with
    | '+' => .plus
    | '-' => .minus
    | '*' => .star
    | '/' => .slash
    | '(' => .openParen
    | ')' => .closeParen
    | _ => .bad

/-- Whether neighbouring characters of the kind share a token. -/
def Token.Kind.runs : Token.Kind → Bool
  | .number | .whitespace => true
  | _ => false

/-- The largest value of a number token. -/
def largestNumber : Nat := 2147483647

structure Lexeme where
  kind : Token.Kind
  chars : List Char
  deriving DecidableEq, Repr

namespace Lexeme

/-- Whether a character goes on with the lexeme that starts with another one. -/
def continues (first c : Char) : Bool :=
  (Token.Kind.ofChar first).runs && Token.Kind.ofChar c == Token.Kind.ofChar first

/-- The longest lexeme at the front, and the characters after it. -/
def split? : List Char → Option (Lexeme × List Char)
  | [] => none
  | c :: cs =>
      some (⟨.ofChar c, c :: cs.takeWhile (continues c)⟩, cs.dropWhile (continues c))

def text (l : Lexeme) : String := String.ofList l.chars

/-- The number that the characters denote as decimal digits. -/
def magnitude (l : Lexeme) : Nat := Nat.ofDigitChars 10 l.chars 0

def isTooLarge (l : Lexeme) : Bool := largestNumber < l.magnitude

/-- The value of the number token, which is zero if the digits denote too large a number. -/
def value (l : Lexeme) : Int32 :=
  if l.isTooLarge then 0 else Int32.ofNat l.magnitude

def token (l : Lexeme) (position : Nat) : Token where
  kind := l.kind
  position := position
  text := if l.kind = .whitespace then none else some l.text
  value := if l.kind = .number then some l.value else none

def diagnostic? (l : Lexeme) (position : Nat) : Option Diagnostic :=
  match l.kind with
  | .bad => l.chars.head?.map fun c => ⟨.badCharacter c, position⟩
  | .number => if l.isTooLarge then some ⟨.invalidInteger l.text, position⟩ else none
  | _ => none

theorem split?_eq_none_iff {cs : List Char} : split? cs = none ↔ cs = [] := by
  cases cs <;> simp [split?]

/-- Nothing is lost between a lexeme and the rest. -/
theorem append_of_split? {cs rest : List Char} {l : Lexeme} (h : split? cs = some (l, rest)) :
    l.chars ++ rest = cs := by
  cases cs with
  | nil => simp [split?] at h
  | cons c cs =>
    simp only [split?, Option.some.injEq, Prod.mk.injEq] at h
    obtain ⟨rfl, rfl⟩ := h
    simp

theorem chars_ne_nil_of_split? {cs rest : List Char} {l : Lexeme}
    (h : split? cs = some (l, rest)) : l.chars ≠ [] := by
  cases cs with
  | nil => simp [split?] at h
  | cons c cs =>
    simp only [split?, Option.some.injEq, Prod.mk.injEq] at h
    simp [← h.1]

theorem length_lt_of_split? {cs rest : List Char} {l : Lexeme}
    (h : split? cs = some (l, rest)) : rest.length < cs.length := by
  have hl := List.length_pos_iff.2 (chars_ne_nil_of_split? h)
  rw [← append_of_split? h, List.length_append]
  omega

/-- All characters of a lexeme are of its kind. -/
theorem ofChar_of_split? {cs rest : List Char} {l : Lexeme} (h : split? cs = some (l, rest))
    {c : Char} (hc : c ∈ l.chars) : Token.Kind.ofChar c = l.kind := by
  cases cs with
  | nil => simp [split?] at h
  | cons d cs =>
    simp only [split?, Option.some.injEq, Prod.mk.injEq] at h
    obtain ⟨rfl, rfl⟩ := h
    rcases List.mem_cons.1 hc with rfl | hc
    · rfl
    · have := List.all_eq_true.1 (List.all_takeWhile) c hc
      simp only [continues, Bool.and_eq_true, beq_iff_eq] at this
      exact this.2

example : split? "120 + 3".toList = some (⟨.number, ['1', '2', '0']⟩, [' ', '+', ' ', '3']) := by
  decide +kernel

end Lexeme

end Calculator
