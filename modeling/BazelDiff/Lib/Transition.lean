/-
# Labelled transition systems and what holds along their runs

A system of interleaved parties is a relation between a state, a label and a next
state. An invariant is shown once for the start and once for a single step; a
property of labels is shown of the single step a state with the invariant allows.
The two rules below carry both to every run.
-/

import Mathlib.Logic.Basic

/-- A finite run of a labelled step relation, with the labels it passes. -/
inductive Run {S E : Type} (step : S → E → S → Prop) : S → List E → S → Prop
  | nil (s : S) : Run step s [] s
  | cons {s t u : S} {e : E} {es : List E} (first : step s e t) (rest : Run step t es u) :
      Run step s (e :: es) u

/-- The states some run from `init` ends in. -/
def Reachable {S E : Type} (step : S → E → S → Prop) (init s : S) : Prop :=
  ∃ es, Run step init es s

namespace Run

variable {S E : Type} {step : S → E → S → Prop}

/-- What one step preserves, a run preserves. -/
theorem preserves {P : S → Prop} (hstep : ∀ s e t, P s → step s e t → P t)
    {s t : S} {es : List E} (run : Run step s es t) (hs : P s) : P t := by
  induction run with
  | nil s => exact hs
  | cons first rest ih =>
      apply ih
      exact hstep _ _ _ hs first

/-- A property of the labels that every step from a state with the invariant has. -/
theorem labels {P : S → Prop} {Q : E → Prop} (hstep : ∀ s e t, P s → step s e t → P t)
    (hlabel : ∀ s e t, P s → step s e t → Q e) {s t : S} {es : List E}
    (run : Run step s es t) (hs : P s) : ∀ e ∈ es, Q e := by
  induction run with
  | nil s => simp
  | cons first rest ih =>
      intro e he
      rcases List.mem_cons.mp he with rfl | he
      · exact hlabel _ _ _ hs first
      · exact ih (hstep _ _ _ hs first) e he

theorem append {s t u : S} {es fs : List E} (run : Run step s es t) (rest : Run step t fs u) :
    Run step s (es ++ fs) u := by
  induction run with
  | nil s => exact rest
  | cons first _ ih => exact .cons first (ih rest)

end Run

namespace Reachable

variable {S E : Type} {step : S → E → S → Prop} {init : S}

/-- The invariant rule: true at the start and kept by every step. -/
theorem invariant {P : S → Prop} (hinit : P init) (hstep : ∀ s e t, P s → step s e t → P t)
    {s : S} (h : Reachable step init s) : P s := by
  obtain ⟨es, run⟩ := h
  exact run.preserves hstep hinit

theorem extend {s t : S} {es : List E} (h : Reachable step init s) (run : Run step s es t) :
    Reachable step init t := by
  obtain ⟨fs, start⟩ := h
  exact ⟨fs ++ es, start.append run⟩

end Reachable
