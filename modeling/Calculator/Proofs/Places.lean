import Calculator.Proofs.Acceptance
import Calculator.Proofs.LongestMatch

/-!
# Places of cursors

A cursor that has been moved by its own steps stands at a token of its text. What it reads
there is the only token of the text at its position, with the diagnostics of the text for
this position, of which there is at most one; and behind a token it stands at the next one.
At the end of the text, and only there, it reads the end of input and stays.

The tokens and the diagnostics of a text are those of the steps from its start. A cursor
stands in a text if its own steps are the last of these, and its rest is what is left of
the text behind its position; a step keeps both.
-/
namespace Calculator

/-- The tokens of a text that start at an offset. -/
def tokensAt (text : String) (position : Nat) : List Token :=
  (tokens text).filter fun t => t.position = position

/-- The diagnostics that the token at an offset gives rise to by itself. -/
def diagnosticsAt (text : String) (position : Nat) : List Diagnostic :=
  (lexicalDiagnostics text).filter fun d => d.position = position

theorem length_diagnosticsAt_le (text : String) (position : Nat) :
    (diagnosticsAt text position).length ≤ 1 := by
  have hp := (lexicalDiagnostics_pairwise_position text).filter
    (fun d => decide (d.position = position))
  have hall : ∀ d ∈ diagnosticsAt text position, d.position = position := fun d hd =>
    of_decide_eq_true (List.mem_filter.1 hd).2
  change (diagnosticsAt text position).Pairwise _ at hp
  match hds : diagnosticsAt text position with
  | [] => simp
  | [d] => simp
  | d :: e :: ds =>
    rw [hds, List.pairwise_cons] at hp
    have hlt := hp.1 e (by simp)
    rw [hall d (by simp [hds]), hall e (by simp [hds])] at hlt
    exact absurd hlt (Nat.lt_irrefl _)

namespace Cursor

theorem next_position (c : Cursor) : c.next.token.position = c.position := by
  cases hs : Lexeme.split? c.rest with
  | none => rw [next_of_nil (Lexeme.split?_eq_none_iff.1 hs), Token.endOfInput]
  | some s => rw [next_of_split? hs, Lexeme.token]

theorem next_kind_eq_endOfInput_iff (c : Cursor) :
    c.next.token.kind = .endOfInput ↔ c.rest = [] := by
  cases hs : Lexeme.split? c.rest with
  | none =>
    have hn := Lexeme.split?_eq_none_iff.1 hs
    simp [next_of_nil hn, hn, Token.endOfInput]
  | some s =>
    have hne : c.rest ≠ [] := fun hn => by simp [Lexeme.split?_eq_none_iff.2 hn] at hs
    rw [next_of_split? hs]
    exact iff_of_false (Lexeme.isWhole_of_split? hs).kind_ne_endOfInput hne

theorem position_of_next_diagnostic? {c : Cursor} {d : Diagnostic}
    (h : c.next.diagnostic? = some d) : d.position = c.position := by
  cases hs : Lexeme.split? c.rest with
  | none => simp [next_of_nil (Lexeme.split?_eq_none_iff.1 hs)] at h
  | some s =>
    rw [next_of_split? hs] at h
    exact Lexeme.diagnostic?_position h

theorem head?_steps (c : Cursor) : c.steps.head? = some c.next := by
  by_cases h : c.rest = []
  · rw [steps_of_nil h, List.head?_cons]
  · rw [steps_of_ne_nil h, List.head?_cons]

/-- Where a cursor stands that has been moved through a text by its steps. -/
structure StandsIn (c : Cursor) (text : String) : Prop where
  steps_suffix : c.steps <:+ (ofText text).steps
  /-- The rest is what the text has behind the position. -/
  exists_before : ∃ before, before ++ String.ofList c.rest = text ∧
    before.utf8ByteSize = c.position

theorem standsIn_ofText (text : String) : (ofText text).StandsIn text :=
  ⟨List.suffix_refl _, "", by simp [ofText], rfl⟩

namespace StandsIn

variable {c : Cursor} {text : String}

theorem next (h : c.StandsIn text) : c.next.cursor.StandsIn text := by
  cases hs : Lexeme.split? c.rest with
  | none =>
    rw [next_of_nil (Lexeme.split?_eq_none_iff.1 hs)]
    exact h
  | some s =>
    obtain ⟨l, rest⟩ := s
    have hne : c.rest ≠ [] := fun hn => by simp [Lexeme.split?_eq_none_iff.2 hn] at hs
    refine ⟨(List.suffix_cons c.next _).trans (steps_of_ne_nil hne ▸ h.steps_suffix), ?_⟩
    obtain ⟨before, htext, hbefore⟩ := h.exists_before
    rw [next_of_split? hs]
    refine ⟨before ++ l.text, ?_, ?_⟩
    · rw [← htext, ← Lexeme.append_of_split? hs, String.ofList_append, String.append_assoc,
        Lexeme.text]
    · rw [String.utf8ByteSize_append, hbefore, Lexeme.text, utf8ByteSize_ofList]

theorem exists_eq_cons (h : c.StandsIn text) :
    ∃ front back, (ofText text).steps = front ++ c.next :: back := by
  obtain ⟨front, hfront⟩ := h.steps_suffix
  obtain ⟨back, hback⟩ := List.head?_eq_some_iff.1 c.head?_steps
  exact ⟨front, back, by rw [← hfront, hback]⟩

end StandsIn

/-- Every step from the start of a text is taken by a cursor that stands in it. -/
theorem exists_standsIn_of_mem_steps {text : String} {s : Scanned}
    (h : s ∈ (ofText text).steps) : ∃ c : Cursor, c.StandsIn text ∧ c.next = s := by
  have main : ∀ c : Cursor, c.StandsIn text → s ∈ c.steps →
      ∃ d : Cursor, d.StandsIn text ∧ d.next = s := by
    intro c
    induction c using steps_induction with
    | last c hn =>
      intro hc hs
      rw [steps_of_nil hn] at hs
      exact ⟨c, hc, (List.mem_singleton.1 hs).symm⟩
    | more c hn ih =>
      intro hc hs
      rw [steps_of_ne_nil hn] at hs
      rcases List.mem_cons.1 hs with rfl | hs
      · exact ⟨c, hc, rfl⟩
      · exact ih hc.next hs
  exact main _ (standsIn_ofText text) h

theorem steps_pairwise_position (text : String) :
    (ofText text).steps.Pairwise fun s t => s.token.position < t.token.position := by
  have h := tokens_pairwise_position text
  rwa [tokens, List.pairwise_map] at h

/-- Of all the steps through a text only one reads at the position of a cursor in it. -/
theorem StandsIn.filter_steps {c : Cursor} {text : String} (h : c.StandsIn text) :
    (ofText text).steps.filter (fun s => s.token.position = c.position) = [c.next] := by
  obtain ⟨front, back, heq⟩ := h.exists_eq_cons
  have hp := steps_pairwise_position text
  rw [heq, List.pairwise_append, List.pairwise_cons] at hp
  -- Positions increase along the steps, so nothing in front or behind is at this one.
  obtain ⟨-, ⟨hback, -⟩, hfront⟩ := hp
  have hfront' : front.filter (fun s => decide (s.token.position = c.position)) = [] := by
    rw [List.filter_eq_nil_iff]
    intro s hs
    have := hfront s hs c.next (by simp)
    rw [next_position] at this
    simp only [decide_eq_true_eq]
    omega
  have hback' : back.filter (fun s => decide (s.token.position = c.position)) = [] := by
    rw [List.filter_eq_nil_iff]
    intro s hs
    have := hback s hs
    rw [next_position] at this
    simp only [decide_eq_true_eq]
    omega
  rw [heq, List.filter_append, hfront', List.filter_cons_of_pos (by simp [next_position]), hback']
  rfl

namespace StandsIn

variable {c : Cursor} {text : String}

theorem tokensAt_eq (h : c.StandsIn text) : tokensAt text c.position = [c.next.token] := by
  rw [tokensAt, tokens, List.filter_map]
  exact congrArg (List.map Scanned.token) h.filter_steps

theorem diagnosticsAt_eq (h : c.StandsIn text) :
    diagnosticsAt text c.position = c.next.diagnostic?.toList := by
  have hfilter : diagnosticsAt text c.position =
      ((ofText text).steps.filter fun s => s.token.position = c.position).filterMap
        Scanned.diagnostic? := by
    rw [diagnosticsAt, lexicalDiagnostics, List.filter_filterMap, List.filterMap_filter]
    apply List.filterMap_congr
    intro s hs
    obtain ⟨d, -, rfl⟩ := exists_standsIn_of_mem_steps hs
    rw [next_position]
    cases hd : d.next.diagnostic? with
    | none => simp
    | some x =>
      rw [Option.filter_some, position_of_next_diagnostic? hd]
  rw [hfilter, h.filter_steps]
  cases hd : c.next.diagnostic? <;> simp [hd]

/-- The token behind a cursor and the one that it stands at then are neighbours. -/
theorem neighbours (h : c.StandsIn text) (hne : c.rest ≠ []) :
    [c.next.token, c.next.cursor.next.token] <:+: tokens text := by
  obtain ⟨front, hfront⟩ := h.steps_suffix
  obtain ⟨back, hback⟩ := List.head?_eq_some_iff.1 c.next.cursor.head?_steps
  refine ⟨front.map Scanned.token, back.map Scanned.token, ?_⟩
  rw [tokens, ← hfront, steps_of_ne_nil hne, hback]
  simp

theorem rest_eq_nil_iff (h : c.StandsIn text) : c.rest = [] ↔ c.position = text.utf8ByteSize := by
  obtain ⟨before, rfl, hbefore⟩ := h.exists_before
  rw [String.utf8ByteSize_append, hbefore, utf8ByteSize_ofList]
  constructor
  · intro hn
    rw [hn, byteLength_nil, Nat.add_zero]
  · intro hp
    by_contra hne
    have := byteLength_pos hne
    omega

end StandsIn

end Cursor

end Calculator
