import Calculator.Session

/-!
# Conversations

A conversation is a session that takes its lines from a stream of bytes. A line ends at a
newline, and a carriage return just before the newline is dropped with it; the last line
may lack its newline, and then a carriage return at its end is part of the line. Bytes
behind the last newline are a line only if there are any.

A line that is not UTF-8 ends the conversation. The lines before it have been answered
by then, and the lines after it are not looked at.
-/
namespace Calculator

def newline : UInt8 := 10

def carriageReturn : UInt8 := 13

/-- Drops a carriage return at the end. -/
def dropReturn (line : List UInt8) : List UInt8 :=
  if line.getLast? = some carriageReturn then line.dropLast else line

/-- The lines of an input, each without its end. -/
def inputLines (input : List UInt8) : List (List UInt8) :=
  if input = [] then []
  else
    let line := input.takeWhile (· ≠ newline)
    match _hr : input.dropWhile (· ≠ newline) with
    | [] => [line]
    | _ :: rest => dropReturn line :: inputLines rest
termination_by input.length
decreasing_by
  have := (List.dropWhile_suffix (l := input) (· ≠ newline)).length_le
  rw [_hr, List.length_cons] at this
  omega

theorem inputLines_nil : inputLines [] = [] := by
  rw [inputLines, if_pos rfl]

private theorem all_ne_newline {line : List UInt8} (h : newline ∉ line) :
    ∀ b ∈ line, decide (b ≠ newline) = true := by
  intro b hb
  exact decide_eq_true fun he => h (he ▸ hb)

/-- An input without a newline is one line. -/
theorem inputLines_of_not_mem {line : List UInt8} (hne : line ≠ []) (h : newline ∉ line) :
    inputLines line = [line] := by
  have hp := all_ne_newline h
  have ht : line.takeWhile (· ≠ newline) = line := by
    rw [← List.append_nil line, List.takeWhile_append_of_pos hp]
    rfl
  have hd : line.dropWhile (· ≠ newline) = [] := by
    rw [← List.append_nil line, List.dropWhile_append_of_pos hp]
    rfl
  rw [inputLines, if_neg hne]
  split
  · rw [ht]
  · next hr =>
    rw [hd] at hr
    cases hr

/-- A newline ends the line before it. -/
theorem inputLines_append_newline {line : List UInt8} (h : newline ∉ line) (rest : List UInt8) :
    inputLines (line ++ newline :: rest) = dropReturn line :: inputLines rest := by
  have hp := all_ne_newline h
  have ht : (line ++ newline :: rest).takeWhile (· ≠ newline) = line := by
    rw [List.takeWhile_append_of_pos hp]
    simp
  have hd : (line ++ newline :: rest).dropWhile (· ≠ newline) = newline :: rest := by
    rw [List.dropWhile_append_of_pos hp]
    simp
  rw [inputLines, if_neg (by simp)]
  split
  · next hr =>
    rw [hd] at hr
    cases hr
  · next hr =>
    rw [hd, List.cons.injEq] at hr
    rw [ht, hr.2]

/-- The text that bytes are the UTF-8 form of. -/
def textOfBytes? (bytes : List UInt8) : Option String :=
  String.fromUTF8? ⟨bytes.toArray⟩

theorem textOfBytes?_toUTF8 (text : String) : textOfBytes? text.toUTF8.data.toList = some text := by
  rw [textOfBytes?, Array.toArray_toList, String.fromUTF8?]
  exact dif_pos text.isValidUTF8

/-- The replies to the lines before the first that is no text, and whether all are text. -/
structure Conversation where
  replies : List Reply
  isComplete : Bool

/-- Answers the lines of a session, a line that is no text being absent. -/
def Session.converse (s : Session) : List (Option String) → Conversation
  | [] => ⟨[], true⟩
  | none :: _ => ⟨[], false⟩
  | some line :: lines =>
      let (next, reply) := s.answer line
      let others := next.converse lines
      ⟨reply :: others.replies, others.isComplete⟩

/-- What a reply prints in a conversation. -/
def Reply.printed : Reply → String
  | .clear => ""
  | reply => "\n" ++ reply.text ++ "\n\n"

def Conversation.printed (c : Conversation) : String :=
  String.join (c.replies.map Reply.printed)

example : inputLines [49, 13, 10, 13] = [[49], [13]] := by decide +kernel

end Calculator
