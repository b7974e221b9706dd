/-
# Runs within a budget

A list is cut into consecutive runs, each as long as a budget allows: a run of several items
costs at most the budget, and no run could have taken the first item of the next one. An item
over the budget makes a run of its own. Such a cut exists once at most, whatever finds it.
-/

import Mathlib.Algebra.GroupWithZero.Nat
import Mathlib.Data.List.Chain
import Mathlib.Tactic.Common

namespace Packing

variable {α : Type} (cost : α → Nat)

/-- The cost of a run. -/
def runCost (run : List α) : Nat :=
  (run.map cost).sum

@[simp]
theorem runCost_nil : runCost cost [] = 0 := rfl

@[simp]
theorem runCost_cons (item : α) (run : List α) :
    runCost cost (item :: run) = cost item + runCost cost run := rfl

@[simp]
theorem runCost_append (run next : List α) :
    runCost cost (run ++ next) = runCost cost run + runCost cost next := by
  rw [runCost, List.map_append, List.sum_append]
  rfl

/-- The items cut into runs, none longer than the budget allows and none shorter. -/
structure IsPacking (budget : Nat) (items : List α) (runs : List (List α)) : Prop where
  parts : runs.flatten = items
  nonempty : ∀ run ∈ runs, run ≠ []
  fits : ∀ run ∈ runs, 1 < run.length → runCost cost run ≤ budget
  tight : runs.IsChain fun run next =>
    ∀ first ∈ next.head?, budget < runCost cost (run ++ [first])

variable {cost} {budget : Nat} {items : List α}

/-- Nothing is packed into no runs. -/
theorem isPacking_nil : IsPacking cost budget [] [] where
  parts := rfl
  nonempty := by simp
  fits := by simp
  tight := List.isChain_nil

namespace IsPacking

/-- What is left after the first run is packed into the others. -/
theorem tail {run : List α} {runs : List (List α)}
    (h : IsPacking cost budget items (run :: runs)) :
    IsPacking cost budget runs.flatten runs where
  parts := rfl
  nonempty := fun next hnext => h.nonempty next (List.mem_cons_of_mem _ hnext)
  fits := fun next hnext => h.fits next (List.mem_cons_of_mem _ hnext)
  tight := h.tight.tail

/-- A first run takes at least as many items as the first run of any other packing. -/
theorem not_extended {run extra : List α} {first : α} {runs runs' : List (List α)}
    (h : IsPacking cost budget items (run :: runs))
    (h' : IsPacking cost budget items ((run ++ first :: extra) :: runs')) : False := by
  have hrest : runs.flatten = first :: extra ++ runs'.flatten := by
    have hparts := h.parts.trans h'.parts.symm
    rw [List.flatten_cons, List.flatten_cons, List.append_assoc] at hparts
    exact List.append_cancel_left hparts
  have hfirst : budget < runCost cost (run ++ [first]) := by
    cases runs with
    | nil => cases hrest
    | cons next later =>
        have hnext := h.nonempty next (by simp)
        obtain ⟨item, rest, rfl⟩ := List.exists_cons_of_ne_nil hnext
        obtain rfl : item = first := (List.cons.inj hrest).1
        exact (List.isChain_cons_cons.mp h.tight).1 item rfl
  have hrun := h.nonempty run List.mem_cons_self
  have hlength : 1 < (run ++ first :: extra).length := by
    have hpos := List.length_pos_of_ne_nil hrun
    rw [List.length_append, List.length_cons]
    omega
  have hfits := h'.fits _ List.mem_cons_self hlength
  rw [runCost_append] at hfirst hfits
  rw [runCost_cons] at hfits
  rw [runCost_cons, runCost_nil] at hfirst
  omega

/-- There is one way to pack. -/
theorem unique {runs runs' : List (List α)} (h : IsPacking cost budget items runs)
    (h' : IsPacking cost budget items runs') : runs = runs' := by
  induction runs generalizing items runs' with
  | nil =>
      cases runs' with
      | nil => rfl
      | cons run' later' =>
          exfalso
          have hparts := h'.parts.trans h.parts.symm
          rw [List.flatten_cons, List.flatten_nil, List.append_eq_nil_iff] at hparts
          exact h'.nonempty run' List.mem_cons_self hparts.1
  | cons run later ih =>
      cases runs' with
      | nil =>
          exfalso
          have hparts := h.parts.trans h'.parts.symm
          rw [List.flatten_cons, List.flatten_nil, List.append_eq_nil_iff] at hparts
          exact h.nonempty run List.mem_cons_self hparts.1
      | cons run' later' =>
          have hparts := h.parts.trans h'.parts.symm
          rw [List.flatten_cons, List.flatten_cons] at hparts
          have hrun : run = run' := by
            rcases List.append_eq_append_iff.mp hparts with ⟨extra, hextra, -⟩ | ⟨extra, hextra, -⟩
            · cases extra with
              | nil => rw [hextra, List.append_nil]
              | cons first extra =>
                  rw [hextra] at h'
                  exact (h.not_extended h').elim
            · cases extra with
              | nil => rw [hextra, List.append_nil]
              | cons first extra =>
                  rw [hextra] at h
                  exact (h'.not_extended h).elim
          subst hrun
          have hlater : later.flatten = later'.flatten := List.append_cancel_left hparts
          have htail : IsPacking cost budget later.flatten later' := by
            rw [hlater]
            exact h'.tail
          rw [ih h.tail htail]

end IsPacking

end Packing
