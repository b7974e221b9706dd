/-
# Least costs of walks

A walk steps along a relation, pays a weight for every step and may end wherever a stop
is allowed, for a last payment. What a search that looks at one step at a time needs is
how the least cost of a node follows from the least costs of its successors. The same
costs are those of chains written as lists, which is how a reader states them.
-/

import Mathlib.Data.List.Chain
import Mathlib.Order.Bounds.Basic

section Costs

variable {α : Type} {step : α → α → Prop} {weight : α → α → Nat} {stop : α → Nat → Prop}

/-- The costs of the walks from a node. -/
inductive WalkCost (step : α → α → Prop) (weight : α → α → Nat) (stop : α → Nat → Prop) :
    α → Nat → Prop
  | stop {a : α} {n : Nat} (h : stop a n) : WalkCost step weight stop a n
  | step {a b : α} {n : Nat} (h : step a b) (rest : WalkCost step weight stop b n) :
      WalkCost step weight stop a (weight a b + n)

/-- A node where stopping is free costs nothing. -/
theorem isLeast_walkCost_stop {a : α} (h : stop a 0) :
    IsLeast {n | WalkCost step weight stop a n} 0 :=
  ⟨WalkCost.stop h, fun _ _ => Nat.zero_le _⟩

/-- Where no stop is allowed, the least cost is the least over the successors. -/
theorem isLeast_walkCost_step {a : α} (hstop : ∀ n, ¬ stop a n) {least : α → Nat}
    (hleast : ∀ b, step a b → IsLeast {n | WalkCost step weight stop b n} (least b)) {m : Nat}
    (hm : IsLeast {n | ∃ b, step a b ∧ weight a b + least b = n} m) :
    IsLeast {n | WalkCost step weight stop a n} m := by
  obtain ⟨⟨b, hb, rfl⟩, hlower⟩ := hm
  refine ⟨WalkCost.step hb (hleast b hb).1, ?_⟩
  intro n hn
  cases hn with
  | stop h => exact absurd h (hstop n)
  | @step _ c k hc rest =>
      calc weight a b + least b ≤ weight a c + least c := hlower ⟨c, hc, rfl⟩
        _ ≤ weight a c + k := Nat.add_le_add_left ((hleast c hc).2 rest) _

/-! ## Walks as lists -/

/-- The weights of a list's steps. -/
def chainCost (weight : α → α → Nat) : List α → Nat
  | [] => 0
  | [_] => 0
  | a :: b :: rest => weight a b + chainCost weight (b :: rest)

/-- A list of steps from `a` to a node with the property. -/
structure ChainTo (step : α → α → Prop) (goal : α → Prop) (a : α) (walk : List α) : Prop where
  head : walk.head? = some a
  chain : walk.IsChain step
  last : ∃ b, walk.getLast? = some b ∧ goal b

/-- Inductive walks and lists have the same costs, when stopping is free. -/
theorem walkCost_iff_chain {goal : α → Prop} {a : α} {n : Nat} :
    WalkCost step weight (fun b k => goal b ∧ k = 0) a n ↔
      ∃ walk, ChainTo step goal a walk ∧ chainCost weight walk = n := by
  constructor
  · intro h
    induction h with
    | @stop a n h =>
        obtain ⟨hgoal, rfl⟩ := h
        exact ⟨[a], ⟨rfl, .singleton a, a, rfl, hgoal⟩, rfl⟩
    | @step a b n h rest ih =>
        obtain ⟨walk, hwalk, rfl⟩ := ih
        obtain ⟨hhead, hchain, c, hlast, hgoal⟩ := hwalk
        cases walk with
        | nil => cases hhead
        | cons b' walk =>
            obtain rfl : b' = b := by simpa using hhead
            refine ⟨a :: b' :: walk, ⟨rfl, .cons_cons h hchain, c, ?_, hgoal⟩, rfl⟩
            rw [List.getLast?_cons_cons]
            exact hlast
  · rintro ⟨walk, ⟨hhead, hchain, c, hlast, hgoal⟩, rfl⟩
    induction walk generalizing a with
    | nil => cases hhead
    | cons a' walk ih =>
        obtain rfl : a' = a := by simpa using hhead
        cases walk with
        | nil =>
            obtain rfl : a' = c := by simpa using hlast
            exact .stop ⟨hgoal, rfl⟩
        | cons b walk =>
            rw [List.isChain_cons_cons] at hchain
            rw [List.getLast?_cons_cons] at hlast
            exact .step hchain.1 (ih rfl hchain.2 hlast)

theorem ChainTo.mono {goal goal' : α → Prop} {a : α} {walk : List α} (h : ChainTo step goal a walk)
    (hgoal : ∀ b, goal b → goal' b) : ChainTo step goal' a walk := by
  obtain ⟨b, hlast, hb⟩ := h.last
  exact ⟨h.head, h.chain, b, hlast, hgoal b hb⟩

/-- A chain goes on with one more step. -/
theorem ChainTo.snoc {a b c : α} {walk : List α} (h : ChainTo step (· = b) a walk)
    (hbc : step b c) : ChainTo step (· = c) a (walk ++ [c]) := by
  obtain ⟨hhead, hchain, last, hlast, rfl⟩ := h
  refine ⟨?_, ?_, c, by simp, rfl⟩
  · rw [List.head?_append, hhead]
    rfl
  · rw [List.isChain_append]
    refine ⟨hchain, .singleton c, ?_⟩
    intro x hx y hy
    obtain rfl : c = y := by simpa using hy
    rw [hlast] at hx
    obtain rfl : last = x := by simpa using hx
    exact hbc

/-- One more step costs its weight. -/
theorem chainCost_snoc (weight : α → α → Nat) (walk : List α) (a b : α) :
    chainCost weight (walk ++ [a, b]) = chainCost weight (walk ++ [a]) + weight a b := by
  induction walk with
  | nil => simp [chainCost]
  | cons c walk ih =>
      cases walk with
      | nil => simp [chainCost]
      | cons d walk =>
          simp only [List.cons_append, chainCost] at ih ⊢
          rw [ih, Nat.add_assoc]

/-- A list read backwards pays the weights of its steps backwards. -/
theorem chainCost_reverse (weight : α → α → Nat) (walk : List α) :
    chainCost weight walk.reverse = chainCost (fun a b => weight b a) walk := by
  induction walk with
  | nil => rfl
  | cons a walk ih =>
      cases walk with
      | nil => rfl
      | cons b walk =>
          rw [List.reverse_cons] at ih
          rw [List.reverse_cons, List.reverse_cons, List.append_assoc, List.cons_append,
            List.nil_append, chainCost_snoc, ih, chainCost, Nat.add_comm]

theorem chainCost_one (walk : List α) : chainCost (fun _ _ => 1) walk = walk.length - 1 := by
  induction walk with
  | nil => rfl
  | cons a walk ih =>
      cases walk with
      | nil => rfl
      | cons b walk =>
          rw [chainCost, ih]
          simp only [List.length_cons]
          omega

end Costs
