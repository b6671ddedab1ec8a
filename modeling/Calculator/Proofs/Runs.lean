import Mathlib.Data.List.Induction

/-!
# Runs

A machine takes steps one after the other, and every step leads to a state and yields
something. `RunsBy` says that a function lists, for all steps of a run, the state behind the
step and what the step yields. The entry for a step is then found by one step from the state
behind the steps before it, so that what one step preserves holds along the whole run.
-/
namespace Calculator

variable {σ α β : Type} {step : σ → α → σ × β} {run : σ → List α → List (σ × β)}

/-- The state behind steps. -/
def stateAfter (step : σ → α → σ × β) (s : σ) (steps : List α) : σ :=
  steps.foldl (fun s a => (step s a).1) s

theorem stateAfter_concat (step : σ → α → σ × β) (s : σ) (steps : List α) (a : α) :
    stateAfter step s (steps ++ [a]) = (step (stateAfter step s steps) a).1 := by
  rw [stateAfter, List.foldl_append, List.foldl_cons, List.foldl_nil, stateAfter]

/-- What holds at first and is kept by every step holds behind all steps. -/
theorem stateAfter_induction {P : σ → Prop} {s : σ} (hs : P s)
    (hstep : ∀ s a, P s → P (step s a).1) (steps : List α) : P (stateAfter step s steps) := by
  induction steps using List.reverseRecOn with
  | nil => exact hs
  | append_singleton steps a ih =>
    rw [stateAfter_concat]
    exact hstep _ a ih

/-- A function lists what the steps of every run lead to and yield. -/
structure RunsBy (step : σ → α → σ × β) (run : σ → List α → List (σ × β)) : Prop where
  nil : ∀ s, run s [] = []
  cons : ∀ s a steps, run s (a :: steps) = step s a :: run (step s a).1 steps

namespace RunsBy

theorem append (h : RunsBy step run) (s : σ) (front back : List α) :
    run s (front ++ back) = run s front ++ run (stateAfter step s front) back := by
  induction front generalizing s with
  | nil => rw [h.nil, List.nil_append, List.nil_append, stateAfter, List.foldl_nil]
  | cons a front ih =>
    rw [List.cons_append, h.cons, h.cons, ih, List.cons_append, stateAfter, stateAfter,
      List.foldl_cons]

theorem length (h : RunsBy step run) (s : σ) (steps : List α) :
    (run s steps).length = steps.length := by
  induction steps generalizing s with
  | nil => rw [h.nil, List.length_nil, List.length_nil]
  | cons a steps ih => rw [h.cons, List.length_cons, ih, List.length_cons]

theorem getElem? (h : RunsBy step run) (s : σ) (front back : List α) (a : α) :
    (run s (front ++ a :: back))[front.length]? = some (step (stateAfter step s front) a) := by
  rw [h.append, ← h.length s front, List.getElem?_append_right (Nat.le_refl _), Nat.sub_self,
    h.cons, List.getElem?_cons_zero]

end RunsBy

end Calculator
