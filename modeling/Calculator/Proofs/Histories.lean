import Mathlib.Data.List.Forall2
import Mathlib.Logic.Function.Iterate
import Calculator.Proofs.Runs
import Calculator.Session

/-!
# Histories of a session

All that a session carries from one line to the next is whether trees are shown. This
setting is what was last set from outside, or what it was at first, flipped once for every
toggle since; no other line changes it. Every line that is no command is answered with the
outcome that the line has by itself, whatever came before, and with its tree exactly while
trees are shown.

One step is described by `Answers`, and from the step what a whole run replies follows. Of
two sessions that are given the same lines and differ in their setting, one shows a tree
wherever the other does not, and nothing else tells them apart.
-/
namespace Calculator.Session

def toggleWords : List String := [".showTree", ".st"]

def clearWords : List String := [".clear", ".cls"]

theorem ofLine?_eq_toggleTree_iff {line : String} :
    Command.ofLine? line = some .toggleTree ↔ line ∈ toggleWords := by
  unfold Command.ofLine? toggleWords
  split
  · simp_all
  · split <;> simp_all

theorem ofLine?_eq_clear_iff {line : String} :
    Command.ofLine? line = some .clear ↔ line ∈ clearWords := by
  unfold Command.ofLine? clearWords
  split
  · next h => rcases h with rfl | rfl <;> simp
  · split <;> simp_all

theorem notMem_toggleWords {line : String} (h : line ∈ clearWords) : line ∉ toggleWords := by
  have hdisjoint : ∀ w ∈ clearWords, w ∉ toggleWords := by decide
  exact hdisjoint line h

theorem ofLine?_eq_none_iff {line : String} :
    Command.ofLine? line = none ↔ line ∉ toggleWords ∧ line ∉ clearWords := by
  rw [← ofLine?_eq_toggleTree_iff, ← ofLine?_eq_clear_iff]
  cases h : Command.ofLine? line with
  | none => simp
  | some c => cases c <;> simp

/-- What a step leads to and replies, where trees are shown or not before it. -/
inductive Answers (shown : Bool) : Step → Bool → Option Reply → Prop
  | set (setting : Bool) : Answers shown (.setShowTree setting) setting none
  | toggle {line : String} : line ∈ toggleWords →
      Answers shown (.line line) (!shown) (some (.treeToggled !shown))
  | clear {line : String} : line ∈ clearWords → Answers shown (.line line) shown (some .clear)
  | evaluated {line : String} : line ∉ toggleWords → line ∉ clearWords →
      Answers shown (.line line) shown
        (some (.evaluated (if shown then some (Line.ofText line).root.render else none)
          (Calculator.evaluate line)))

/-- The outcome in a reply is that of the line by itself. -/
theorem evaluate_eq (s : Session) (line : String) : s.evaluate line =
    .evaluated (if s.showTree then some (Line.ofText line).root.render else none)
      (Calculator.evaluate line) := rfl

theorem answers_step (s : Session) (step : Step) :
    Answers s.showTree step (s.step step).1.showTree (s.step step).2 := by
  cases step with
  | setShowTree setting => exact .set setting
  | line line =>
    simp only [Session.step, answer]
    split
    · next h => exact .toggle (ofLine?_eq_toggleTree_iff.1 h)
    · next h => exact .clear (ofLine?_eq_clear_iff.1 h)
    · next h =>
      rw [evaluate_eq]
      exact .evaluated (ofLine?_eq_none_iff.1 h).1 (ofLine?_eq_none_iff.1 h).2

theorem runsBy_step : RunsBy step run := ⟨fun _ => rfl, fun _ _ _ => rfl⟩

/-- Steps that leave a setting behind: the last one from outside, or else the first one, flipped
once for every toggle since. -/
inductive LeavesSetting (first : Bool) : List Step → Bool → Prop
  | unset (lines : List String) :
      LeavesSetting first (lines.map .line) ((!·)^[lines.countP (· ∈ toggleWords)] first)
  | set (front : List Step) (setting : Bool) (lines : List String) :
      LeavesSetting first (front ++ .setShowTree setting :: lines.map .line)
        ((!·)^[lines.countP (· ∈ toggleWords)] setting)

theorem flipped_concat (lines : List String) (line : String) (setting : Bool) :
    (!·)^[(lines ++ [line]).countP (· ∈ toggleWords)] setting =
      if line ∈ toggleWords then !((!·)^[lines.countP (· ∈ toggleWords)] setting)
      else (!·)^[lines.countP (· ∈ toggleWords)] setting := by
  rw [List.countP_append, List.countP_singleton]
  by_cases h : line ∈ toggleWords
  · rw [if_pos h, if_pos (decide_eq_true h), Function.iterate_succ_apply']
  · rw [if_neg h, if_neg (by simpa using h), Nat.add_zero]

theorem Answers.setting_line {shown after : Bool} {line : String} {reply? : Option Reply}
    (h : Answers shown (.line line) after reply?) :
    after = if line ∈ toggleWords then !shown else shown := by
  cases h with
  | toggle hl => rw [if_pos hl]
  | clear hl => rw [if_neg (notMem_toggleWords hl)]
  | evaluated hl _ => rw [if_neg hl]

theorem LeavesSetting.concat {first shown after : Bool} {steps : List Step} {step : Step}
    {reply? : Option Reply} (h : LeavesSetting first steps shown)
    (hs : Answers shown step after reply?) : LeavesSetting first (steps ++ [step]) after := by
  cases step with
  | setShowTree setting =>
    cases hs with
    | set => exact .set steps _ []
  | line line =>
    rw [hs.setting_line]
    cases h with
    | unset lines =>
      rw [← flipped_concat, ← List.map_singleton, ← List.map_append]
      exact .unset (lines ++ [line])
    | set front setting lines =>
      -- The last setting from outside stays where it is, with one more line behind it.
      rw [← flipped_concat, List.append_assoc, List.cons_append, ← List.map_singleton,
        ← List.map_append]
      exact .set front setting (lines ++ [line])

theorem leavesSetting_after (s : Session) (steps : List Step) :
    LeavesSetting s.showTree steps (stateAfter step s steps).showTree := by
  induction steps using List.reverseRecOn with
  | nil => exact .unset []
  | append_singleton steps a ih =>
    rw [stateAfter_concat]
    exact ih.concat (answers_step _ a)

/-- Replies to a line that differ in the setting only: exactly one of them has a tree. -/
inductive Complements : Option Reply → Option Reply → Prop
  | toggled (shown : Bool) : Complements (some (.treeToggled shown)) (some (.treeToggled !shown))
  | clear : Complements (some .clear) (some .clear)
  | evaluated {tree? other? : Option String} (outcome : Outcome) :
      tree?.isSome = !other?.isSome →
      Complements (some (.evaluated tree? outcome)) (some (.evaluated other? outcome))

theorem complements_of_answers {shown after other : Bool} {line : String}
    {reply? otherReply? : Option Reply} (h : Answers shown (.line line) after reply?)
    (h' : Answers (!shown) (.line line) other otherReply?) :
    other = !after ∧ Complements reply? otherReply? := by
  refine ⟨?_, ?_⟩
  · rw [h.setting_line, h'.setting_line]
    split <;> rfl
  · cases h with
    | toggle hl =>
      cases h' with
      | toggle _ => exact .toggled _
      | clear hc => exact absurd hl (notMem_toggleWords hc)
      | evaluated hn _ => exact absurd hl hn
    | clear hc =>
      cases h' with
      | toggle hl => exact absurd hl (notMem_toggleWords hc)
      | clear _ => exact .clear
      | evaluated _ hn => exact absurd hc hn
    | evaluated hl hc =>
      cases h' with
      | toggle h => exact absurd h hl
      | clear h => exact absurd h hc
      | evaluated _ _ =>
        apply Complements.evaluated
        cases shown <;> rfl

theorem run_complements (lines : List String) (s t : Session) (h : t.showTree = !s.showTree) :
    List.Forall₂ (fun x y => y.1.showTree = !x.1.showTree ∧ Complements x.2 y.2)
      (s.run (lines.map .line)) (t.run (lines.map .line)) := by
  induction lines generalizing s t with
  | nil => exact .nil
  | cons line lines ih =>
    have ht := answers_step t (.line line)
    rw [h] at ht
    obtain ⟨hset, hreply⟩ := complements_of_answers (answers_step s (.line line)) ht
    exact .cons ⟨hset, hreply⟩ (ih _ _ hset)

/-- The history of a session. Behind every step of a run the setting is the one that the steps
so far leave, and the step is answered by the setting before it and its own line alone. Two
runs of the same lines from opposite settings differ in their settings and trees, everywhere,
and in nothing else. -/
theorem run_history (first : Bool) :
    (∀ front step back, ∃ shown after reply?,
      LeavesSetting first front shown ∧ LeavesSetting first (front ++ [step]) after ∧
      ((⟨first⟩ : Session).run (front ++ step :: back))[front.length]? =
        some (⟨after⟩, reply?) ∧ Answers shown step after reply?) ∧
    ∀ lines : List String,
      List.Forall₂ (fun x y => y.1.showTree = !x.1.showTree ∧ Complements x.2 y.2)
        ((⟨first⟩ : Session).run (lines.map .line))
        ((⟨!first⟩ : Session).run (lines.map .line)) := by
  refine ⟨fun front step back => ?_, fun lines => run_complements lines _ _ rfl⟩
  have hsetting := leavesSetting_after ⟨first⟩ (front ++ [step])
  rw [stateAfter_concat] at hsetting
  exact ⟨_, _, _, leavesSetting_after ⟨first⟩ front, hsetting,
    runsBy_step.getElem? _ front back step, answers_step _ step⟩

end Calculator.Session
