import Calculator.Line

/-!
# What a message tells

A diagnostic that reading a line produces can be told from its message and its position: the
first word of the message tells the kind of the problem, and what the message says in between
is fixed by the position. Names of kinds are told apart by what comes behind them and is in no
name: the angle bracket of a message, or the capital of the word that follows in an outline.

Nothing of this holds of diagnostics that somebody else has worded.
-/
namespace Calculator

/-- The diagnostic is worded by its own cause. -/
def Diagnostic.IsWorded (d : Diagnostic) : Prop := ∀ message, d.cause ≠ .stated message

theorem Lexeme.isWorded_of_diagnostic? {l : Lexeme} {position : Nat} {d : Diagnostic}
    (h : l.diagnostic? position = some d) : d.IsWorded := by
  unfold diagnostic? at h
  split at h
  · obtain ⟨c, -, rfl⟩ := Option.map_eq_some_iff.1 h
    intro message hd
    cases hd
  · split at h <;> cases h
    intro message hd
    cases hd
  · cases h

theorem newline_notMem_toDigits (n : Nat) : '\n' ∉ Nat.toDigits 10 n := fun h =>
  absurd (Nat.isDigit_of_mem_toDigits (by decide) (by decide) h) (by decide)

namespace Token.Kind

theorem newline_notMem_name (k : Token.Kind) : '\n' ∉ k.name.toList := by
  cases k <;> decide

theorem ne_of_mem_name {sep : Char} (h : sep = '>' ∨ sep = 'T') (k : Token.Kind) :
    ∀ c ∈ k.name.toList, decide (c ≠ sep) = true := by
  rcases h with rfl | rfl <;> cases k <;> simp [name]

/-- A name ends at the first character that is in no name. -/
theorem eq_of_name_append {sep : Char} (h : sep = '>' ∨ sep = 'T') {k l : Token.Kind}
    {cs ds : List Char} (heq : k.name.toList ++ sep :: cs = l.name.toList ++ sep :: ds) :
    k = l := by
  have ht := congrArg (List.takeWhile fun c => decide (c ≠ sep)) heq
  rw [List.takeWhile_append_of_pos (k.ne_of_mem_name h),
    List.takeWhile_append_of_pos (l.ne_of_mem_name h)] at ht
  exact name_injective (String.toList_inj.1 (by simpa using ht))

end Token.Kind

/-- The message and the position tell the diagnostic. -/
theorem Diagnostic.eq_of_message_eq {d e : Diagnostic} (hd : d.IsWorded) (he : e.IsWorded)
    (hm : d.message = e.message) (hp : d.position = e.position) : d = e := by
  obtain ⟨cause, p⟩ := d
  obtain ⟨cause', q⟩ := e
  obtain rfl : p = q := hp
  rw [Diagnostic.mk.injEq]
  refine ⟨?_, rfl⟩
  have hchars := congrArg String.toList hm
  -- Causes of different kinds differ in the first letter already.
  cases cause with
  | stated message => exact absurd rfl (hd message)
  | badCharacter c =>
    cases cause' with
    | stated message => exact absurd rfl (he message)
    | badCharacter c' => simpa [message] using hchars
    | invalidInteger _ => simp [message] at hchars
    | unexpectedToken _ _ => simp [message] at hchars
  | invalidInteger digits =>
    cases cause' with
    | stated message => exact absurd rfl (he message)
    | badCharacter _ => simp [message] at hchars
    | invalidInteger digits' => simpa [message, String.toList_inj] using hchars
    | unexpectedToken _ _ => simp [message] at hchars
  | unexpectedToken actual expected =>
    cases cause' with
    | stated message => exact absurd rfl (he message)
    | badCharacter _ => simp [message] at hchars
    | invalidInteger _ => simp [message] at hchars
    | unexpectedToken actual' expected' =>
      simp only [message, String.toList_append, List.append_assoc,
        List.append_cancel_left_eq] at hchars
      obtain rfl := Token.Kind.eq_of_name_append (.inl rfl) hchars
      simp only [List.append_cancel_left_eq, List.append_cancel_right_eq,
        String.toList_inj] at hchars
      rw [Token.Kind.name_injective hchars]

end Calculator
