import Calculator.CommandLine
import Calculator.Proofs.Histories
import Calculator.Proofs.InputLines

/-!
# The two modes

A run either holds a conversation or answers the one expression that its arguments name.
Both are the session of `Calculator.Session` and add nothing to it but where the replies go.
A conversation puts out what one session replies to the lines of the input, up to the first
line that is no text. An expression is answered by a fresh session, and its reply goes to the
error stream exactly when it has no value.

The input is text as it is written: every character of a line belongs to it, a backspace too.
-/
namespace Calculator

namespace Session

/-- What is seen of a session that is given lines: every reply on a line of its own, with an
empty line before it and one behind it, and nothing where the screen is to be cleared. -/
def transcript (s : Session) (lines : List String) : String :=
  String.join (((s.run (lines.map .line)).filterMap Prod.snd).map fun reply =>
    match reply with
    | .clear => ""
    | reply => "\n" ++ reply.text ++ "\n\n")

theorem transcript_cons (s : Session) (line : String) (lines : List String) :
    s.transcript (line :: lines) =
      (s.answer line).2.printed ++ (s.answer line).1.transcript lines := by
  rw [transcript, List.map_cons, run, List.filterMap_cons]
  simp only [step, List.map_cons, String.join_cons]
  rfl

/-- Texts are answered as the session answers them, whatever comes behind them. -/
theorem converse_append (s : Session) (texts : List String) (others : List (Option String)) :
    ∃ after : Session,
      (s.converse (texts.map some ++ others)).printed =
        s.transcript texts ++ (after.converse others).printed ∧
      (s.converse (texts.map some ++ others)).isComplete =
        (after.converse others).isComplete := by
  induction texts generalizing s with
  | nil => exact ⟨s, rfl, rfl⟩
  | cons text texts ih =>
    obtain ⟨after, hprinted, hcomplete⟩ := ih (s.answer text).1
    refine ⟨after, ?_, hcomplete⟩
    rw [transcript_cons, String.append_assoc, ← hprinted]
    simp only [List.map_cons, List.cons_append, converse, Conversation.printed, String.join_cons]

theorem answers_answer (s : Session) (line : String) :
    Answers s.showTree (.line line) (s.answer line).1.showTree (some (s.answer line).2) :=
  answers_step s (.line line)

theorem Answers.isFailure_iff {shown after : Bool} {line : String} {reply : Reply}
    (h : Answers shown (.line line) after (some reply)) :
    reply.isFailure = true ↔
      line ∉ toggleWords ∧ line ∉ clearWords ∧ ∃ f, Calculator.evaluate line = .error f := by
  cases h with
  | toggle hl => exact iff_of_false Bool.false_ne_true fun hn => hn.1 hl
  | clear hc => exact iff_of_false Bool.false_ne_true fun hn => hn.2.1 hc
  | evaluated hl hc =>
    rw [and_iff_right hl, and_iff_right hc]
    cases Calculator.evaluate line with
    | ok v => exact iff_of_false Bool.false_ne_true fun ⟨f, hf⟩ => by cases hf
    | error f => exact iff_of_true rfl ⟨f, rfl⟩

theorem Answers.printed_eq {shown after : Bool} {line : String} {reply : Reply}
    (h : Answers shown (.line line) after (some reply)) (hline : line ∉ clearWords) :
    reply.printed = "\n" ++ reply.text ++ "\n\n" := by
  cases h with
  | toggle _ => rfl
  | clear hc => exact absurd hc hline
  | evaluated _ _ => rfl

end Session

/-- The switch for trees, as it may stand before everything else. -/
inductive TreeSwitch where
  | absent | short | long
  deriving DecidableEq, Repr

namespace TreeSwitch

def arguments : TreeSwitch → List String
  | absent => []
  | short => ["-t"]
  | long => ["--show-tree"]

/-- The session that a run starts with. -/
def session : TreeSwitch → Session
  | absent => ⟨false⟩
  | short | long => ⟨true⟩

/-- A run without an expression. -/
def converse (w : TreeSwitch) (input : List UInt8) : Run :=
  (Request.ofArguments w.arguments).run input

/-- A run with an expression. -/
def evaluate (w : TreeSwitch) (expression : String) (input : List UInt8) : Run :=
  (Request.ofArguments (w.arguments ++ ["--", expression])).run input

theorem ofArguments_arguments (w : TreeSwitch) :
    Request.ofArguments w.arguments = .converse w.session.showTree := by
  cases w <;> rfl

theorem ofArguments_expression (w : TreeSwitch) (expression : String) :
    Request.ofArguments (w.arguments ++ ["--", expression]) =
      .evaluate w.session.showTree expression := by
  cases w <;> rfl

theorem converse_eq (w : TreeSwitch) {input : List UInt8} {c : Conversation}
    (h : w.session.converse ((inputLines input).map textOfBytes?) = c) :
    w.converse input = if c.isComplete then { output := c.printed }
      else { exitStatus := 1, output := c.printed, errors := inputError } := by
  rw [converse, ofArguments_arguments, Request.run, h]

theorem evaluate_eq (w : TreeSwitch) {expression : String} {reply : Reply}
    (h : (w.session.answer expression).2 = reply) (input : List UInt8) :
    w.evaluate expression input =
      if reply.isFailure then { exitStatus := 1, errors := reply.text ++ "\n" }
      else { output := reply.text ++ "\n" } := by
  rw [evaluate, ofArguments_expression, Request.run, h]

theorem converse_of_lines (w : TreeSwitch) {input : List UInt8} {texts : List String}
    (h : inputLines input = texts.map utf8Bytes) :
    w.converse input = { output := w.session.transcript texts } := by
  obtain ⟨after, hprinted, hcomplete⟩ := w.session.converse_append texts []
  have hempty : (after.converse []).printed = "" := rfl
  rw [hempty, String.append_empty] at hprinted
  rw [converse_eq w rfl, h, map_textOfBytes?_utf8Bytes, ← List.append_nil (texts.map some),
    hprinted, hcomplete]
  rfl

theorem converse_of_broken_line (w : TreeSwitch) {input bad : List UInt8} {texts : List String}
    {others : List (List UInt8)} (h : inputLines input = texts.map utf8Bytes ++ bad :: others)
    (hbad : ∀ text, utf8Bytes text ≠ bad) :
    w.converse input =
      { exitStatus := 1, output := w.session.transcript texts, errors := inputError } := by
  obtain ⟨after, hprinted, hcomplete⟩ :=
    w.session.converse_append texts (none :: others.map textOfBytes?)
  have hempty : (after.converse (none :: others.map textOfBytes?)).printed = "" := rfl
  rw [hempty, String.append_empty] at hprinted
  rw [converse_eq w rfl, h, List.map_append, map_textOfBytes?_utf8Bytes, List.map_cons,
    textOfBytes?_eq_none_iff.2 hbad, hprinted, hcomplete]
  rfl

example : short.converse [46, 115, 116, 10, 255, 10, 50] =
    { exitStatus := 1, output := "\nShow Tree: Off\n\n", errors := inputError } := by
  decide +kernel

theorem output_converse (w : TreeSwitch) (input : List UInt8) : (w.converse input).output =
    (w.session.converse ((inputLines input).map textOfBytes?)).printed := by
  rw [converse_eq w rfl]
  split <;> rfl

/-- The first line that a conversation is given is answered first. -/
theorem output_converse_of_first_line (w : TreeSwitch) {input : List UInt8} {first : String}
    {others : List (List UInt8)} (h : inputLines input = utf8Bytes first :: others) :
    ∃ tail, (w.converse input).output = (w.session.answer first).2.printed ++ tail := by
  refine ⟨((w.session.answer first).1.converse (others.map textOfBytes?)).printed, ?_⟩
  rw [output_converse, h, List.map_cons, textOfBytes?_eq_some_iff.2 rfl]
  simp only [Session.converse, Conversation.printed, List.map_cons, String.join_cons]

theorem output_errors_evaluate (w : TreeSwitch) (expression : String) (input : List UInt8) :
    (w.evaluate expression input).output ++ (w.evaluate expression input).errors =
      (w.session.answer expression).2.text ++ "\n" := by
  rw [evaluate_eq w rfl]
  split
  · exact String.empty_append
  · exact String.append_empty

theorem hasLines_of_first_line {first : String} (hm : '\n' ∉ first.toList)
    (hr : first.toList.getLast? ≠ some '\r') (rest : List UInt8) :
    HasLines newline carriageReturn (utf8Bytes first ++ newline :: rest)
      (utf8Bytes first :: inputLines rest) := by
  rw [utf8Bytes_eq]
  exact .ended (newline_notMem_flatMap hm)
    (mt (getLast?_flatMap_utf8EncodeChar_iff (a := '\r') (by decide)).1 hr)
    (inputLines_eq_iff.1 rfl)

/-- Both modes are the session. A conversation puts out the transcript of the lines of its
input and fails at the first that is no text, and only there. A run with an expression fails
exactly where the expression is no command and has no value, and then its reply is all that it
puts on the error stream. A line shows the same text in both modes. -/
theorem runs_of_session (w : TreeSwitch) :
    (∀ text, ∃ lines, (∀ others, HasTextLines text others ↔ others = lines) ∧
      w.converse (utf8Bytes text) =
        { exitStatus := 0, output := w.session.transcript lines, errors := "" }) ∧
    (∀ input lines, HasLines newline carriageReturn input lines →
      (∃ line ∈ lines, ∀ text, utf8Bytes text ≠ line) →
      ∃ (texts : List String) (bad : List UInt8) (others : List (List UInt8)),
        lines = texts.map utf8Bytes ++ bad :: others ∧ (∀ text, utf8Bytes text ≠ bad) ∧
        w.converse input =
          { exitStatus := 1, output := w.session.transcript texts, errors := inputError }) ∧
    (∀ expression input,
      ((w.evaluate expression input).exitStatus = 1 ↔
        expression ∉ Session.toggleWords ∧ expression ∉ Session.clearWords ∧
          ∃ f, Calculator.evaluate expression = .error f) ∧
      w.evaluate expression input =
        if (w.evaluate expression input).exitStatus = 1 then
          { exitStatus := 1, output := "",
            errors := (w.session.answer expression).2.text ++ "\n" }
        else
          { exitStatus := 0, output := (w.session.answer expression).2.text ++ "\n",
            errors := "" }) ∧
    ∀ first : String, '\n' ∉ first.toList → first.toList.getLast? ≠ some '\r' →
      first ∉ Session.clearWords → ∃ shown,
        (∀ input, (w.evaluate first input).output ++ (w.evaluate first input).errors =
          shown ++ "\n") ∧
        (∀ rest, ∃ others, HasLines newline carriageReturn (utf8Bytes first ++ newline :: rest)
          (utf8Bytes first :: others)) ∧
        ∀ input others, HasLines newline carriageReturn input (utf8Bytes first :: others) →
          ∃ tail, (w.converse input).output = "\n" ++ shown ++ "\n\n" ++ tail := by
  refine ⟨fun text => ?_, fun input lines h hbroken => ?_, fun expression input => ?_,
    fun first hm hr hc => ?_⟩
  · obtain ⟨lines, hlines, hunique⟩ := HasTextLines.existsUnique text
    refine ⟨lines, fun others => ⟨hunique others, fun h => h ▸ hlines⟩, ?_⟩
    exact w.converse_of_lines hlines.inputLines_utf8Bytes
  · obtain ⟨texts, bad, others, rfl, hbad⟩ := exists_first_broken_line hbroken
    exact ⟨texts, bad, others, rfl, hbad, w.converse_of_broken_line h.inputLines_eq hbad⟩
  · rw [← (w.session.answers_answer expression).isFailure_iff, evaluate_eq w rfl]
    cases (w.session.answer expression).2.isFailure with
    | false => exact ⟨iff_of_false (show ¬(0 : UInt32) = 1 by decide) Bool.false_ne_true, rfl⟩
    | true => exact ⟨iff_of_true rfl rfl, rfl⟩
  · refine ⟨(w.session.answer first).2.text, w.output_errors_evaluate first,
      fun rest => ⟨_, hasLines_of_first_line hm hr rest⟩, fun input others h => ?_⟩
    rw [← (w.session.answers_answer first).printed_eq hc]
    exact w.output_converse_of_first_line h.inputLines_eq

end TreeSwitch

end Calculator
