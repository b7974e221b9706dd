/-
# Sorting related and permuted lists

Insertion sort looks at its items only through the order, so it takes related lists to
related lists when related items compare alike, and it takes two permutations of one
another to the same list when no two different items are equivalent.
-/

import Mathlib.Data.List.Forall2
import Mathlib.Data.List.Sort

namespace Sorting

variable {α β : Type} {R : α → β → Prop}

section Related

variable {r : α → α → Prop} [DecidableRel r] {s : β → β → Prop} [DecidableRel s]

theorem forall₂_orderedInsert (hrs : ∀ a b a' b', R a b → R a' b' → (r a a' ↔ s b b'))
    {a : α} {b : β} (hab : R a b) {xs : List α} {ys : List β} (h : List.Forall₂ R xs ys) :
    List.Forall₂ R (xs.orderedInsert r a) (ys.orderedInsert s b) := by
  induction h with
  | nil => exact .cons hab .nil
  | @cons x y xs ys hxy hrest ih =>
      rw [List.orderedInsert_cons, List.orderedInsert_cons]
      by_cases hr : r a x
      · rw [if_pos hr, if_pos ((hrs a b x y hab hxy).mp hr)]
        exact .cons hab (.cons hxy hrest)
      · rw [if_neg hr, if_neg fun hs => hr ((hrs a b x y hab hxy).mpr hs)]
        exact .cons hxy ih

theorem forall₂_insertionSort (hrs : ∀ a b a' b', R a b → R a' b' → (r a a' ↔ s b b'))
    {xs : List α} {ys : List β} (h : List.Forall₂ R xs ys) :
    List.Forall₂ R (xs.insertionSort r) (ys.insertionSort s) := by
  induction h with
  | nil => exact .nil
  | cons hxy _ ih => exact forall₂_orderedInsert hrs hxy ih

end Related

/-- Two sorted permutations of each other are equal when equivalent items are. -/
theorem insertionSort_eq_of_perm {r : α → α → Prop} [DecidableRel r] [Std.Total r] [IsTrans α r]
    {xs ys : List α} (hperm : xs.Perm ys)
    (hanti : ∀ a ∈ xs, ∀ b ∈ xs, r a b → r b a → a = b) :
    xs.insertionSort r = ys.insertionSort r := by
  have hsorted : (xs.insertionSort r).Perm (ys.insertionSort r) :=
    (List.perm_insertionSort r xs).trans (hperm.trans (List.perm_insertionSort r ys).symm)
  refine hsorted.eq_of_pairwise ?_ (List.pairwise_insertionSort r xs)
    (List.pairwise_insertionSort r ys)
  intro a b ha hb hab hba
  refine hanti a ((List.mem_insertionSort r).mp ha) b ?_ hab hba
  exact hperm.mem_iff.mpr ((List.mem_insertionSort r).mp hb)

/-- Looking an item up by a key that no two items share does not depend on their order. -/
theorem find?_eq_of_perm {κ : Type} [DecidableEq κ] {key : α → κ} {xs ys : List α}
    (hperm : xs.Perm ys) (hnodup : (xs.map key).Nodup) (k : κ) :
    xs.find? (key · = k) = ys.find? (key · = k) := by
  have hfound : ∀ {xs : List α}, (xs.map key).Nodup → ∀ {x : α},
      xs.find? (key · = k) = some x ↔ x ∈ xs ∧ key x = k := by
    intro xs hnodup x
    constructor
    · exact fun h => ⟨List.mem_of_find?_eq_some h, by simpa using List.find?_some h⟩
    · rintro ⟨hmem, rfl⟩
      cases h : xs.find? (key · = key x) with
      | none => exact absurd (decide_eq_true rfl) (List.find?_eq_none.mp h x hmem)
      | some y =>
          have hkey : key y = key x := by simpa using List.find?_some h
          rw [List.inj_on_of_nodup_map hnodup (List.mem_of_find?_eq_some h) hmem hkey]
  refine Option.ext fun x => ?_
  rw [hfound hnodup, hfound ((hperm.map key).nodup_iff.mp hnodup), hperm.mem_iff]

/-- Folding over a permutation ends in a related state when the steps commute up to the
relation. -/
theorem foldl_related_of_perm {R : β → β → Prop} {f : β → α → β} (hrefl : ∀ b, R b b)
    (htrans : ∀ a b c, R a b → R b c → R a c)
    (hstep : ∀ a b item, R a b → R (f a item) (f b item))
    (hswap : ∀ b first second, R (f (f b first) second) (f (f b second) first))
    {xs ys : List α} (hperm : xs.Perm ys) (b : β) : R (xs.foldl f b) (ys.foldl f b) := by
  have hfold : ∀ (items : List α) {a b : β}, R a b → R (items.foldl f a) (items.foldl f b) := by
    intro items
    induction items with
    | nil => exact id
    | cons item rest ih => exact fun hab => ih (hstep _ _ item hab)
  induction hperm generalizing b with
  | nil => exact hrefl b
  | cons item _ ih => exact ih _
  | swap first second rest => exact hfold rest (hswap b second first)
  | trans _ _ ih ih' => exact htrans _ _ _ (ih b) (ih' b)

end Sorting
