import Mathlib.Data.List.Nodup
import Calculator.Scanning
import Calculator.Proofs.Places
import Calculator.Proofs.Runs

/-!
# Reading a text again and again

However a text is scanned, with tokens looked at twice, places saved and returned to, the
reader stands at a token of the text, and what it reads is this token and no other. `Takes`
says what a step does by the tokens of the text alone; that a step keeps all places at
tokens carries it along every run.

The diagnostics that are collected are those of the tokens read, one token after the other.
So a token that is read several times is reported as often, and the end of input never.
-/
namespace Calculator

theorem diagnosticsAt_end (text : String) : diagnosticsAt text text.utf8ByteSize = [] := by
  rw [diagnosticsAt, List.filter_eq_nil_iff, lexicalDiagnostics_eq]
  intro d hd
  obtain ⟨x, hx, hxd⟩ := List.mem_filterMap.1 hd
  have hlt := ((placed_lexemes_increases 0 text.toList).2 x hx).2
  rw [byteLength_toList, Nat.zero_add, ← Lexeme.diagnostic?_position hxd] at hlt
  simp only [decide_eq_true_eq]
  omega

theorem count_diagnosticsAt {text : String} {d : Diagnostic} (h : d ∈ lexicalDiagnostics text)
    (position : Nat) :
    (diagnosticsAt text position).count d = if position = d.position then 1 else 0 := by
  have hnodup : (lexicalDiagnostics text).Nodup :=
    (lexicalDiagnostics_pairwise_position text).imp fun hlt heq => by simp [heq] at hlt
  split
  · next hp =>
    rw [diagnosticsAt, List.count_filter (by simp [hp])]
    exact List.count_eq_one_of_mem hnodup h
  · next hp =>
    rw [List.count_eq_zero, diagnosticsAt, List.mem_filter]
    exact fun hm => hp (of_decide_eq_true hm.2).symm

/-- A place in a text, as its tokens say it: one of them stands there, which is the end of input
exactly at the end of the text, and what is left to read is what the text has behind it. -/
structure Cursor.IsPlace (c : Cursor) (text : String) : Prop where
  exists_token : ∃ t, tokensAt text c.position = [t] ∧ (t.kind = .endOfInput ↔ c.atEnd = true)
  atEnd_iff : c.atEnd = true ↔ c.position = text.utf8ByteSize
  exists_before : ∃ before, before ++ String.ofList c.rest = text ∧
    before.utf8ByteSize = c.position

theorem Cursor.StandsIn.isPlace {c : Cursor} {text : String} (h : c.StandsIn text) :
    c.IsPlace text := by
  refine ⟨⟨c.next.token, h.tokensAt_eq, ?_⟩, ?_, h.exists_before⟩
  · rw [next_kind_eq_endOfInput_iff, atEnd, List.isEmpty_iff]
  · rw [atEnd, List.isEmpty_iff, h.rest_eq_nil_iff]

namespace Scanning

theorem runsBy_step : RunsBy step run := ⟨fun _ => rfl, fun _ _ _ => rfl⟩

/-- What a step does in a text, and the token that it reads, by the tokens of the text. -/
inductive Takes (text : String) (s : Scanning) : Step → Scanning → Option Token → Prop
  /-- A token with another one behind it is read, and the cursor goes on to this one. -/
  | forward {t u : Token} {c : Cursor} : tokensAt text s.cursor.position = [t] →
      [t, u] <:+: tokens text → c.position = u.position →
      Takes text s .next { s with
        cursor := c, diagnostics := s.diagnostics ++ diagnosticsAt text t.position } (some t)
  | stay {t : Token} : tokensAt text s.cursor.position = [t] → t.kind = .endOfInput →
      Takes text s .next s (some t)
  | peek {t : Token} : tokensAt text s.cursor.position = [t] →
      Takes text s .peek
        { s with diagnostics := s.diagnostics ++ diagnosticsAt text t.position } (some t)
  | save : Takes text s .save { s with saved := s.cursor } none
  | restore : Takes text s .restore { s with cursor := s.saved } none
  | reset : Takes text s .reset { s with cursor := Cursor.ofText text } none

/-- All places of a scanning are places in the text. -/
structure StandsIn (s : Scanning) (text : String) : Prop where
  start_eq : s.start = Cursor.ofText text
  cursor : s.cursor.StandsIn text
  saved : s.saved.StandsIn text

theorem standsIn_ofText (text : String) : (ofText text).StandsIn text :=
  ⟨rfl, Cursor.standsIn_ofText text, Cursor.standsIn_ofText text⟩

theorem StandsIn.step {s : Scanning} {text : String} (h : s.StandsIn text) (step : Step) :
    (s.step step).1.StandsIn text := by
  cases step with
  | next => exact ⟨h.start_eq, h.cursor.next, h.saved⟩
  | peek => exact ⟨h.start_eq, h.cursor, h.saved⟩
  | save => exact ⟨h.start_eq, h.cursor, h.cursor⟩
  | restore => exact ⟨h.start_eq, h.saved, h.saved⟩
  | reset =>
    have hstart : s.start.StandsIn text := h.start_eq ▸ Cursor.standsIn_ofText text
    exact ⟨h.start_eq, hstart, h.saved⟩

theorem StandsIn.after {s : Scanning} {text : String} (h : s.StandsIn text) (steps : List Step) :
    (stateAfter Scanning.step s steps).StandsIn text := by
  apply stateAfter_induction (P := fun s => StandsIn s text) h
  exact fun _ step hs => hs.step step

theorem StandsIn.peek_eq {s : Scanning} {text : String} (h : s.StandsIn text) : s.peek =
    { s with diagnostics :=
        s.diagnostics ++ diagnosticsAt text s.cursor.next.token.position } := by
  rw [peek, Cursor.next_position, h.cursor.diagnosticsAt_eq]

theorem StandsIn.takes {s : Scanning} {text : String} (h : s.StandsIn text) (step : Step) :
    Takes text s step (s.step step).1 (s.step step).2 := by
  have htoken := h.cursor.tokensAt_eq
  cases step with
  | next =>
    rw [Scanning.step, h.peek_eq]
    by_cases hend : s.cursor.rest = []
    · have hkind := (Cursor.next_kind_eq_endOfInput_iff s.cursor).2 hend
      -- The cursor does not move and no diagnostic is added: nothing at all has changed.
      have hstay : ({ s with
          cursor := s.cursor.next.cursor
          diagnostics := s.diagnostics ++
            diagnosticsAt text s.cursor.next.token.position } : Scanning) = s := by
        rw [Cursor.next_position, h.cursor.diagnosticsAt_eq, Cursor.next_of_nil hend]
        simp
      simp only [hstay]
      exact .stay htoken hkind
    · exact .forward htoken (h.cursor.neighbours hend) (Cursor.next_position _).symm
  | peek =>
    rw [Scanning.step, h.peek_eq]
    exact .peek htoken
  | save => exact .save
  | restore => exact .restore
  | reset =>
    have hreset : Takes text s .reset { s with cursor := Cursor.ofText text } none := .reset
    rwa [← h.start_eq] at hreset

/-- The tokens that steps read, in the order in which they are read. -/
def readings (s : Scanning) (steps : List Step) : List Token :=
  (s.run steps).filterMap Prod.snd

theorem readings_concat (s : Scanning) (steps : List Step) (step : Step) :
    s.readings (steps ++ [step]) =
      s.readings steps ++ ((stateAfter Scanning.step s steps).step step).2.toList := by
  rw [readings, readings, runsBy_step.append, List.filterMap_append, run, run]
  cases h : ((stateAfter Scanning.step s steps).step step).2 <;> simp [h]

/-- A step adds the diagnostics of the token that it reads. -/
theorem StandsIn.diagnostics_step {s : Scanning} {text : String} (h : s.StandsIn text)
    (step : Step) : (s.step step).1.diagnostics = s.diagnostics ++
      (s.step step).2.toList.flatMap fun t => diagnosticsAt text t.position := by
  cases step with
  | next | peek =>
    simp only [Scanning.step, h.peek_eq, Option.toList_some, List.flatMap_singleton]
  | save | restore | reset =>
    simp only [Scanning.step, Option.toList_none, List.flatMap_nil, List.append_nil]

theorem diagnostics_after (text : String) (steps : List Step) :
    (stateAfter step (ofText text) steps).diagnostics =
      ((ofText text).readings steps).flatMap fun t => diagnosticsAt text t.position := by
  induction steps using List.reverseRecOn with
  | nil => rfl
  | append_singleton steps step ih =>
    rw [stateAfter_concat, ((standsIn_ofText text).after steps).diagnostics_step, ih,
      readings_concat, List.flatMap_append]

/-- A token that is read several times adds its diagnostic as often. -/
theorem count_diagnostics_after {text : String} {d : Diagnostic}
    (h : d ∈ lexicalDiagnostics text) (steps : List Step) :
    (stateAfter step (ofText text) steps).diagnostics.count d =
      ((ofText text).readings steps).countP fun t => t.position = d.position := by
  rw [diagnostics_after]
  induction (ofText text).readings steps with
  | nil => rfl
  | cons t ts ih =>
    rw [List.flatMap_cons, List.count_append, ih, count_diagnosticsAt h, List.countP_cons,
      Nat.add_comm]
    simp

/-- Whatever steps are taken through a text, the cursor and the saved place stand at tokens of
the text, every step does what these tokens say, and the diagnostics collected are those of the
tokens read, each as often as it was read, with none for the end of input. -/
theorem run_takes_tokens (text : String) :
    (∀ steps, (stateAfter step (ofText text) steps).cursor.IsPlace text ∧
      (stateAfter step (ofText text) steps).saved.IsPlace text ∧
      (stateAfter step (ofText text) steps).diagnostics =
        ((ofText text).readings steps).flatMap (fun t => diagnosticsAt text t.position) ∧
      ∀ d ∈ lexicalDiagnostics text,
        (stateAfter step (ofText text) steps).diagnostics.count d =
          ((ofText text).readings steps).countP fun t => t.position = d.position) ∧
    (∀ front taken back, ∃ token?,
      ((ofText text).run (front ++ taken :: back))[front.length]? =
        some (stateAfter step (ofText text) (front ++ [taken]), token?) ∧
      Takes text (stateAfter step (ofText text) front) taken
        (stateAfter step (ofText text) (front ++ [taken])) token?) ∧
    (∀ position, (diagnosticsAt text position).length ≤ 1) ∧
    diagnosticsAt text text.utf8ByteSize = [] := by
  refine ⟨fun steps => ?_, fun front taken back => ?_, length_diagnosticsAt_le text,
    diagnosticsAt_end text⟩
  · have h := (standsIn_ofText text).after steps
    exact ⟨h.cursor.isPlace, h.saved.isPlace, diagnostics_after text steps,
      fun d hd => count_diagnostics_after hd steps⟩
  · rw [stateAfter_concat]
    exact ⟨_, runsBy_step.getElem? _ front back taken,
      ((standsIn_ofText text).after front).takes taken⟩

end Scanning

end Calculator
