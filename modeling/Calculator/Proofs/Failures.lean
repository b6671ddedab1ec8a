import Calculator.Proofs.Messages
import Calculator.Proofs.Placeholders

/-!
# The text of a failure

A line that is not evaluated because of its diagnostics shows their messages, one on each line of
its text. Messages repeat characters and digits of a line that may have newlines in it, and still
the messages can be told apart by the newlines of the text. The reason is that a newline is a
blank: what a message repeats is a lexeme of another kind, and no blank is part of one. What else
there is in a message are names of kinds, numerals and fixed words.

That the cause can be told from a message is said elsewhere.
-/
namespace Calculator

namespace Lexeme

/-- A newline is a blank, and so it is part of no other lexeme. -/
theorem IsWhole.newline_notMem_chars {l : Lexeme} (h : l.IsWhole) (hk : l.kind ≠ .whitespace) :
    '\n' ∉ l.chars := by
  intro hn
  refine hk ((h.ofChar_eq '\n' hn).symm.trans ?_)
  decide

theorem IsWhole.newline_notMem_message {l : Lexeme} (h : l.IsWhole) {position : Nat}
    {d : Diagnostic} (hd : l.diagnostic? position = some d) : '\n' ∉ d.message.toList := by
  unfold diagnostic? at hd
  split at hd
  · next hk =>
    have hchars := h.newline_notMem_chars (by simp [hk])
    obtain ⟨c, hc, rfl⟩ := Option.map_eq_some_iff.1 hd
    have hne : '\n' ≠ c := fun he => hchars (he ▸ List.mem_of_head? hc)
    simp [Diagnostic.message, newline_notMem_toDigits, hne]
  · next hk =>
    have hchars := h.newline_notMem_chars (by simp [hk])
    split at hd <;> cases hd
    simp [Diagnostic.message, newline_notMem_toDigits, text, hchars]
  · cases hd

end Lexeme

theorem Diagnostic.newline_notMem_message {d : Diagnostic} {actual expected : Token.Kind}
    (h : d.cause = .unexpectedToken actual expected) : '\n' ∉ d.message.toList := by
  simp [message, h, newline_notMem_toDigits, Token.Kind.newline_notMem_name]

namespace Line

theorem newline_notMem_message_of_mem {text : String} {d : Diagnostic}
    (h : d ∈ (ofText text).diagnostics) : '\n' ∉ d.message.toList := by
  rcases List.mem_append.1 h with h | h
  · change d ∈ lexicalDiagnostics text at h
    rw [lexicalDiagnostics_eq, List.mem_filterMap] at h
    obtain ⟨x, hx, hd⟩ := h
    exact (isWhole_of_mem_placed hx).newline_notMem_message hd
  · obtain ⟨actual, expected, hd⟩ := (mends text).exists_unexpectedToken d h
    exact Diagnostic.newline_notMem_message hd

theorem evaluate_eq_diagnostics {text : String} {ds : List Diagnostic}
    (h : Calculator.evaluate text = .error (.diagnostics ds)) :
    ds = (ofText text).diagnostics ∧ ds ≠ [] := by
  rw [Calculator.evaluate, outcome_eq] at h
  split at h
  · cases hv : (ofText text).root.evaluate with
    | ok v => rw [hv] at h; cases h
    | error f => rw [hv] at h; cases h
  · next hw =>
    cases h
    exact ⟨rfl, fun hn => hw (List.isEmpty_iff.2 hn)⟩

/-- If a text has diagnostics instead of a value, then the lines of what is shown of them are
their messages, in their order, and there is at least one. -/
theorem splitOn_message_of_diagnostics {text : String} {ds : List Diagnostic}
    (h : Calculator.evaluate text = .error (.diagnostics ds)) :
    ((Failure.diagnostics ds).message.toList.splitOn '\n').map String.ofList =
        (ofText text).diagnostics.map Diagnostic.message ∧
      (ofText text).diagnostics ≠ [] := by
  obtain ⟨rfl, hne⟩ := evaluate_eq_diagnostics h
  have hchars : (Failure.diagnostics (ofText text).diagnostics).message.toList =
      ['\n'].intercalate ((ofText text).diagnostics.map fun d => d.message.toList) := by
    rw [Failure.message, String.toList_intercalate, List.map_map]
    rfl
  refine ⟨?_, hne⟩
  rw [hchars, List.splitOn_intercalate, List.map_map]
  · simp [Function.comp_def]
  · intro l hl
    obtain ⟨d, hd, rfl⟩ := List.mem_map.1 hl
    exact newline_notMem_message_of_mem hd
  · simpa using hne

theorem splitOn_message_of_diagnostics_between_newlines : ∃ ds,
    Calculator.evaluate "7\n$\n2147483648" = .error (.diagnostics ds) ∧
      ((Failure.diagnostics ds).message.toList.splitOn '\n').map String.ofList =
        ["Bad character '$' at position 2.",
          "The value 2147483648 at position 4 is not a valid integer.",
          "Unexpected token <Number> at position 4, expected <EOF>."] := by
  have h : Calculator.evaluate "7\n$\n2147483648" = .error (.diagnostics
      [⟨.badCharacter '$', 2⟩, ⟨.invalidInteger "2147483648", 4⟩,
        ⟨.unexpectedToken .number .endOfInput, 4⟩]) := by decide +kernel
  refine ⟨_, h, (splitOn_message_of_diagnostics h).1.trans ?_⟩
  decide +kernel

end Line

end Calculator
