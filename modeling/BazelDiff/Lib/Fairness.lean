/-
# Infinite runs and fairness

Along an infinite run of a labelled step relation nothing need happen at a given moment. An
action is treated fairly if it is not possible for ever without being taken. Two rules lead from
there to what happens in the end: a state that only the action ends, and in which it is possible,
is ended by it; and a rank that keeps falling until a goal is reached leads to the goal.
-/

import BazelDiff.Lib.Transition
import Mathlib.Tactic.ByContra

/-- An infinite run; at a moment without an event nothing changes. -/
structure Trace {S E : Type} (step : S → E → S → Prop) where
  state : Nat → S
  event : Nat → Option E
  next : ∀ n e, event n = some e → step (state n) e (state (n + 1))
  idle : ∀ n, event n = none → state (n + 1) = state n

namespace Trace

variable {S E : Type} {step : S → E → S → Prop} {trace : Trace step}

/-- What a step preserves holds from some moment on. -/
theorem preserves {P : S → Prop} (hstep : ∀ s e t, P s → step s e t → P t) {n m : Nat}
    (h : P (trace.state n)) (hnm : n ≤ m) : P (trace.state m) := by
  induction hnm with
  | refl => exact h
  | @step m _ ih =>
      cases hevent : trace.event m with
      | none =>
          rw [trace.idle m hevent]
          exact ih
      | some e => exact hstep _ e _ ih (trace.next m e hevent)

/-- The states of a run are reached by its finite beginnings. -/
theorem run (trace : Trace step) {n m : Nat} (hnm : n ≤ m) :
    ∃ es, Run step (trace.state n) es (trace.state m) := by
  induction hnm with
  | refl => exact ⟨[], .nil _⟩
  | @step m _ ih =>
      obtain ⟨es, hrun⟩ := ih
      cases hevent : trace.event m with
      | none =>
          rw [trace.idle m hevent]
          exact ⟨es, hrun⟩
      | some e => exact ⟨es ++ [e], hrun.append (.cons (trace.next m e hevent) (.nil _))⟩

/-- An action that is possible from some moment on is taken. -/
def Fair (trace : Trace step) (enabled : S → Prop) (action : E → Prop) : Prop :=
  ∀ n, (∀ m, n ≤ m → enabled (trace.state m)) →
    ∃ m e, n ≤ m ∧ trace.event m = some e ∧ action e

/-- A condition under which an action is possible, and which nothing else ends, is ended by the
action. -/
theorem Fair.taken {enabled : S → Prop} {action : E → Prop} (hfair : trace.Fair enabled action)
    {P : S → Prop} (hkeep : ∀ s e t, P s → step s e t → ¬ action e → P t)
    (henabled : ∀ s, P s → enabled s) {n : Nat} (h : P (trace.state n)) :
    ∃ m e, n ≤ m ∧ trace.event m = some e ∧ action e ∧ P (trace.state m) := by
  by_contra hnever
  have hstays : ∀ m, n ≤ m → P (trace.state m) := by
    intro m hnm
    induction hnm with
    | refl => exact h
    | @step m hnm ih =>
        cases hevent : trace.event m with
        | none =>
            rw [trace.idle m hevent]
            exact ih
        | some e =>
            refine hkeep _ e _ ih (trace.next m e hevent) fun haction => ?_
            exact hnever ⟨m, e, hnm, hevent, haction, ih⟩
  obtain ⟨m, e, hnm, hevent, haction⟩ := hfair n fun m hnm => henabled _ (hstays m hnm)
  exact hnever ⟨m, e, hnm, hevent, haction, hstays m hnm⟩

/-- A rank that falls as long as the goal is not reached leads to the goal. -/
theorem eventually_of_rank {Q : S → Prop} (rank : S → Nat) {start : Nat}
    (hfalls : ∀ n, start ≤ n → ¬ Q (trace.state n) →
      ∃ m, n ≤ m ∧ rank (trace.state m) < rank (trace.state n)) :
    ∃ m, start ≤ m ∧ Q (trace.state m) := by
  have hfrom : ∀ bound n, start ≤ n → rank (trace.state n) ≤ bound →
      ∃ m, n ≤ m ∧ Q (trace.state m) := by
    intro bound
    induction bound with
    | zero =>
        intro n hn hrank
        by_contra hnever
        obtain ⟨m, -, hlt⟩ := hfalls n hn fun hgoal => hnever ⟨n, Nat.le_refl n, hgoal⟩
        omega
    | succ bound ih =>
        intro n hn hrank
        by_cases hgoal : Q (trace.state n)
        · exact ⟨n, Nat.le_refl n, hgoal⟩
        · obtain ⟨m, hnm, hlt⟩ := hfalls n hn hgoal
          obtain ⟨k, hmk, hreached⟩ := ih m (Nat.le_trans hn hnm) (by omega)
          exact ⟨k, Nat.le_trans hnm hmk, hreached⟩
  exact hfrom _ start (Nat.le_refl start) (Nat.le_refl _)

end Trace
