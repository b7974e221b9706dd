/-
# Finishing orders

A depth-first search finishes a node after the successors it keeps, and leaves an edge out
only where it leads back to a node the search is still inside of. Whatever the graph, what
is kept has no cycle, and what is left out closes one.
-/

import Mathlib.Data.Finset.Card
import Mathlib.Logic.Relation

namespace FinishingOrder

open Relation

variable {α : Type} {step kept : α → α → Prop} {finished : α → Prop}

/-- The nodes a search has finished and the edges it has kept of them. -/
structure Finished (step : α → α → Prop) (finished : α → Prop) (kept : α → α → Prop) : Prop where
  subset : ∀ a b, kept a b → step a b
  closed : ∀ a b, kept a b → finished a ∧ finished b
  back : ∀ a b, finished a → step a b → ¬ kept a b → ReflTransGen step b a
  ranked : ∃ (rank : α → Nat) (bound : Nat), (∀ a, rank a < bound) ∧
    ∀ a b, kept a b → rank b < rank a

namespace Finished

theorem initial : Finished step (fun _ => False) fun _ _ => False where
  subset := fun _ _ h => h.elim
  closed := fun _ _ h => h.elim
  back := fun _ _ h => h.elim
  ranked := ⟨fun _ => 0, 1, fun _ => Nat.one_pos, fun _ _ h => h.elim⟩

/-- A node is finished after the successors it keeps. -/
theorem finish (h : Finished step finished kept) {a : α} {targets : α → Prop}
    (ha : ¬ finished a) (hstep : ∀ b, targets b → step a b)
    (hfinished : ∀ b, targets b → finished b)
    (hback : ∀ b, step a b → ¬ targets b → ReflTransGen step b a) :
    Finished step (fun b => b = a ∨ finished b)
      fun b c => b = a ∧ targets c ∨ kept b c where
  subset := by
    rintro b c (⟨rfl, hc⟩ | hkept)
    · exact hstep c hc
    · exact h.subset b c hkept
  closed := by
    rintro b c (⟨rfl, hc⟩ | hkept)
    · exact ⟨Or.inl rfl, Or.inr (hfinished c hc)⟩
    · exact ⟨Or.inr (h.closed b c hkept).1, Or.inr (h.closed b c hkept).2⟩
  back := by
    rintro b c (rfl | hb) hbc hnot
    · exact hback c hbc fun hc => hnot (Or.inl ⟨rfl, hc⟩)
    · exact h.back b c hb hbc fun hkept => hnot (Or.inr hkept)
  ranked := by
    classical
    obtain ⟨rank, bound, hbound, hrank⟩ := h.ranked
    have hold : ∀ b, finished b → b ≠ a := fun b hb heq => ha (heq ▸ hb)
    refine ⟨fun b => if b = a then bound else rank b, bound + 1, fun b => ?_, ?_⟩
    · dsimp only
      split
      · exact Nat.lt_succ_self bound
      · exact Nat.lt_succ_of_lt (hbound b)
    · rintro b c (⟨rfl, hc⟩ | hkept)
      · dsimp only
        rw [if_pos rfl, if_neg (hold c (hfinished c hc))]
        exact hbound c
      · dsimp only
        rw [if_neg (hold b (h.closed b c hkept).1), if_neg (hold c (h.closed b c hkept).2)]
        exact hrank b c hkept

/-- What is kept has no cycle. -/
theorem acyclic (h : Finished step finished kept) (a : α) : ¬ TransGen kept a a := by
  obtain ⟨rank, _, _, hrank⟩ := h.ranked
  have hlt : ∀ b c, TransGen kept b c → rank c < rank b := by
    intro b c hbc
    induction hbc with
    | single hkept => exact hrank _ _ hkept
    | tail _ hkept ih => exact Nat.lt_trans (hrank _ _ hkept) ih
  exact fun hcycle => Nat.lt_irrefl _ (hlt a a hcycle)

/-- Without a cycle nothing is left out. -/
theorem complete (h : Finished step finished kept) (hacyclic : ∀ a, ¬ TransGen step a a) {a b : α}
    (ha : finished a) (hab : step a b) : kept a b := by
  apply Classical.byContradiction
  intro hnot
  exact hacyclic a (TransGen.head' hab (h.back a b ha hab hnot))

end Finished

/-- Once a search is inside of one more node, fewer are left outside. -/
theorem card_outside_lt {nodes : Finset α} {before after : α → Prop} [DecidablePred before]
    [DecidablePred after] (hsubset : ∀ b, after b → before b) {a : α} (ha : a ∈ nodes)
    (hbefore : before a) (hafter : ¬ after a) :
    (nodes.filter after).card < (nodes.filter before).card := by
  apply Finset.card_lt_card
  apply (Finset.ssubset_iff_of_subset _).mpr
  · refine ⟨a, Finset.mem_filter.mpr ⟨ha, hbefore⟩, ?_⟩
    intro hmem
    exact hafter (Finset.mem_filter.mp hmem).2
  · intro b hb
    obtain ⟨hnode, hb⟩ := Finset.mem_filter.mp hb
    exact Finset.mem_filter.mpr ⟨hnode, hsubset b hb⟩

end FinishingOrder
