/-
# Breadth-first search

A search keeps the distance and the parent of every node it has discovered and a queue
of discovered nodes it has not expanded. The invariant ties the three together: the
queue is ordered by distance and spans at most two levels, expanded nodes have all
their successors discovered one level further at most, and parents are one level
closer. Expanding the head of the queue keeps it. An optional bound stops expansion at
a level.

What the invariant is for: every discovered distance is the length of a walk, and every
walk that stays within the levels the queue has left behind ends at a discovered node
whose distance is not larger. With an empty queue, distances are least.
-/

import BazelDiff.Lib.ShortestWalk

namespace BreadthFirst

variable {α : Type} {step : α → α → Prop} {start : α} {bound : Option Nat}
  {dist : α → Option Nat} {parent : α → Option α} {queue : List α}

/-- Nodes at this level are expanded. -/
def Expanded (bound : Option Nat) (n : Nat) : Prop :=
  ∀ d, bound = some d → n < d

/-- The walks from `a` to `b`, by length. -/
abbrev Reaches (step : α → α → Prop) (b : α) : α → Nat → Prop :=
  WalkCost step (fun _ _ => 1) fun c k => c = b ∧ k = 0

theorem Reaches.snoc {a b c : α} {n : Nat} (h : Reaches step b a n) (hbc : step b c) :
    Reaches step c a (n + 1) := by
  induction h with
  | stop h =>
      obtain ⟨rfl, rfl⟩ := h
      have hlast : Reaches step c c 0 := .stop ⟨rfl, rfl⟩
      exact WalkCost.step hbc hlast
  | step hstep rest ih => exact WalkCost.step hstep ih

/-- The state of a search. -/
structure Frontier (step : α → α → Prop) (start : α) (bound : Option Nat)
    (dist : α → Option Nat) (parent : α → Option α) (queue : List α) : Prop where
  origin : dist start = some 0
  root : parent start = none
  child : ∀ b n, dist b = some n → b ≠ start →
    ∃ a m, parent b = some a ∧ step a b ∧ dist a = some m ∧ n = m + 1
  bounded : ∀ b n d, dist b = some n → bound = some d → n ≤ d
  queued : ∀ a ∈ queue, ∃ n, dist a = some n
  sorted : queue.Pairwise fun a b => ∀ n m, dist a = some n → dist b = some m → n ≤ m
  window : ∀ a ∈ queue, ∀ b n m, dist a = some n → dist b = some m → m ≤ n + 1
  closed : ∀ a n, dist a = some n → a ∉ queue → Expanded bound n →
    ∀ b, step a b → ∃ m, dist b = some m ∧ m ≤ n + 1

namespace Frontier

theorem initial [DecidableEq α] :
    Frontier step start bound (fun a => if a = start then some 0 else none) (fun _ => none)
      [start] where
  origin := if_pos rfl
  root := rfl
  child b n h hne := by
    rw [if_neg hne] at h
    cases h
  bounded b n d h _ := by
    split at h
    · cases h
      exact Nat.zero_le d
    · cases h
  queued a ha := by
    obtain rfl : a = start := by simpa using ha
    exact ⟨0, if_pos rfl⟩
  sorted := List.pairwise_singleton _ _
  window a _ b n m _ h := by
    split at h
    · cases h
      exact Nat.zero_le _
    · cases h
  closed a n h ha _ b _ := by
    split at h
    · next heq => exact absurd (heq ▸ List.mem_cons_self) ha
    · cases h

/-- A node at the bound leaves the queue unexpanded. -/
theorem skip {a : α} (h : Frontier step start bound dist parent (a :: queue)) {n : Nat}
    (ha : dist a = some n) (hn : ¬ Expanded bound n) :
    Frontier step start bound dist parent queue where
  origin := h.origin
  root := h.root
  child := h.child
  bounded := h.bounded
  queued b hb := h.queued b (List.mem_cons_of_mem _ hb)
  sorted := (List.pairwise_cons.mp h.sorted).2
  window b hb := h.window b (List.mem_cons_of_mem _ hb)
  closed b m hdist hb hm c hc := by
    apply h.closed b m hdist _ hm c hc
    intro hmem
    rcases List.mem_cons.mp hmem with rfl | hmem
    · rw [ha] at hdist
      cases hdist
      exact hn hm
    · exact hb hmem

/-- Expanding the head of the queue: its undiscovered successors are one level further. -/
theorem advance {a : α} (h : Frontier step start bound dist parent (a :: queue)) {n : Nat}
    (ha : dist a = some n) (hn : Expanded bound n) {news : List α}
    (hnews : ∀ b, b ∈ news ↔ step a b ∧ dist b = none) {dist' : α → Option Nat}
    {parent' : α → Option α}
    (hdist : ∀ b, dist b = none → b ∈ news → dist' b = some (n + 1))
    (hparent : ∀ b, b ∈ news → parent' b = some a)
    (hother : ∀ b, b ∉ news → dist' b = dist b ∧ parent' b = parent b) :
    Frontier step start bound dist' parent' (queue ++ news) := by
  have hnew : ∀ b ∈ news, dist b = none ∧ dist' b = some (n + 1) := by
    intro b hb
    have hnone := ((hnews b).mp hb).2
    exact ⟨hnone, hdist b hnone hb⟩
  have hold : ∀ b m, dist b = some m → b ∉ news ∧ dist' b = some m := by
    intro b m hb
    have hnot : b ∉ news := by
      intro hmem
      rw [(hnew b hmem).1] at hb
      cases hb
    exact ⟨hnot, (hother b hnot).1.trans hb⟩
  have hcases : ∀ b m, dist' b = some m → b ∈ news ∧ m = n + 1 ∨ dist b = some m := by
    intro b m hb
    by_cases hmem : b ∈ news
    · rw [(hnew b hmem).2] at hb
      exact .inl ⟨hmem, (Option.some.inj hb).symm⟩
    · exact .inr ((hother b hmem).1.symm.trans hb)
  have hqueue : ∀ b ∈ queue, ∃ m, dist b = some m ∧ n ≤ m := by
    intro b hb
    obtain ⟨m, hm⟩ := h.queued b (List.mem_cons_of_mem _ hb)
    exact ⟨m, hm, (List.pairwise_cons.mp h.sorted).1 b hb n m ha hm⟩
  have hlevel : ∀ b m, dist' b = some m → m ≤ n + 1 := by
    intro b m hb
    rcases hcases b m hb with ⟨-, rfl⟩ | hb
    · exact Nat.le_refl _
    · exact h.window a List.mem_cons_self b n m ha hb
  constructor
  · exact (hold start 0 h.origin).2
  · rw [(hother start (hold start 0 h.origin).1).2]
    exact h.root
  · intro b m hb hne
    rcases hcases b m hb with ⟨hmem, rfl⟩ | hb
    · exact ⟨a, n, hparent b hmem, ((hnews b).mp hmem).1, (hold a n ha).2, rfl⟩
    · obtain ⟨c, k, hc, hstep, hk, heq⟩ := h.child b m hb hne
      refine ⟨c, k, ?_, hstep, (hold c k hk).2, heq⟩
      rw [(hother b (hold b m hb).1).2]
      exact hc
  · intro b m d hb hd
    rcases hcases b m hb with ⟨-, rfl⟩ | hb
    · exact hn d hd
    · exact h.bounded b m d hb hd
  · intro b hb
    rcases List.mem_append.mp hb with hb | hb
    · obtain ⟨m, hm, -⟩ := hqueue b hb
      exact ⟨m, (hold b m hm).2⟩
    · exact ⟨n + 1, (hnew b hb).2⟩
  · rw [List.pairwise_append]
    refine ⟨?_, ?_, ?_⟩
    · apply (List.pairwise_cons.mp h.sorted).2.imp_of_mem
      intro b c hb hc hbc k m hk hm
      obtain ⟨k', hk', -⟩ := hqueue b hb
      obtain ⟨m', hm', -⟩ := hqueue c hc
      rw [(hold b k' hk').2] at hk
      rw [(hold c m' hm').2] at hm
      cases hk
      cases hm
      exact hbc _ _ hk' hm'
    · apply List.pairwise_of_forall_mem_list
      intro b hb c hc k m hk hm
      rw [(hnew b hb).2] at hk
      rw [(hnew c hc).2] at hm
      cases hk
      cases hm
      exact Nat.le_refl _
    · intro b _ c hc k m hk hm
      rw [(hnew c hc).2] at hm
      cases hm
      exact hlevel b k hk
  · intro b hb c k m hk hm
    have hbound := hlevel c m hm
    rcases List.mem_append.mp hb with hb | hb
    · obtain ⟨k', hk', hle⟩ := hqueue b hb
      rw [(hold b k' hk').2] at hk
      cases hk
      omega
    · rw [(hnew b hb).2] at hk
      cases hk
      omega
  · intro b m hb hmem hm c hc
    have hnot : b ∉ news := fun hnews => hmem (List.mem_append_right _ hnews)
    have hb' : dist b = some m := (hother b hnot).1.symm.trans hb
    by_cases heq : b = a
    · subst heq
      rw [ha] at hb'
      cases hb'
      cases hdistc : dist c with
      | none =>
          have hcnew := (hnews c).mpr ⟨hc, hdistc⟩
          exact ⟨n + 1, (hnew c hcnew).2, Nat.le_refl _⟩
      | some k =>
          exact ⟨k, (hold c k hdistc).2, h.window b List.mem_cons_self c n k ha hdistc⟩
    · have hqueue' : b ∉ a :: queue := by
        intro hcons
        rcases List.mem_cons.mp hcons with hba | hcons
        · exact heq hba
        · exact hmem (List.mem_append_left _ hcons)
      obtain ⟨k, hk, hle⟩ := h.closed b m hb' hqueue' hm c hc
      exact ⟨k, (hold c k hk).2, hle⟩

/-- Every discovered distance is the length of a walk. -/
theorem sound (h : Frontier step start bound dist parent queue) {b : α} {n : Nat}
    (hb : dist b = some n) : Reaches step b start n := by
  induction n generalizing b with
  | zero =>
      by_cases heq : b = start
      · exact .stop ⟨heq.symm, rfl⟩
      · obtain ⟨a, m, -, -, -, hm⟩ := h.child b 0 hb heq
        omega
  | succ n ih =>
      by_cases heq : b = start
      · subst heq
        rw [h.origin] at hb
        cases hb
      · obtain ⟨a, m, -, hstep, ha, hm⟩ := h.child b (n + 1) hb heq
        obtain rfl : m = n := by omega
        exact (ih ha).snoc hstep

/-- A walk within the levels the queue has left behind ends at a discovered node. -/
theorem complete (h : Frontier step start bound dist parent queue) {level : Nat}
    (hqueue : ∀ a ∈ queue, ∀ n, dist a = some n → level ≤ n)
    (hbound : ∀ d, bound = some d → level ≤ d) {a b : α} {n k : Nat}
    (hwalk : Reaches step b a k) (ha : dist a = some n) (hlevel : n + k ≤ level) :
    ∃ m, dist b = some m ∧ m ≤ n + k := by
  induction hwalk generalizing n with
  | stop hstop =>
      obtain ⟨rfl, rfl⟩ := hstop
      exact ⟨n, ha, Nat.le_refl _⟩
  | @step a c k hstep rest ih =>
      have hout : a ∉ queue := by
        intro hmem
        have := hqueue a hmem n ha
        omega
      have hexpanded : Expanded bound n := by
        intro d hd
        have := hbound d hd
        omega
      obtain ⟨m, hm, hle⟩ := h.closed a n ha hout hexpanded c hstep
      obtain ⟨m', hm', hle'⟩ := ih hm (by omega)
      exact ⟨m', hm', by omega⟩

/-- When the queue is empty, the discovered nodes are those within the bound, at their
least distance. -/
theorem finished (h : Frontier step start bound dist parent []) {b : α} {n : Nat}
    (hb : dist b = some n) : IsLeast {k | Reaches step b start k} n := by
  refine ⟨h.sound hb, ?_⟩
  intro k hk
  by_cases hkn : k ≤ n
  · have hwithin : ∀ d, bound = some d → k ≤ d := by
      intro d hd
      have := h.bounded b n d hb hd
      omega
    obtain ⟨m, hm, hle⟩ := h.complete (by simp) hwithin hk h.origin (Nat.zero_add k).le
    rw [hb] at hm
    cases hm
    omega
  · omega

theorem discovered_iff (h : Frontier step start bound dist parent []) {b : α} :
    (∃ n, dist b = some n) ↔ ∃ k, Reaches step b start k ∧ ∀ d, bound = some d → k ≤ d := by
  constructor
  · rintro ⟨n, hn⟩
    exact ⟨n, h.sound hn, fun d hd => h.bounded b n d hn hd⟩
  · rintro ⟨k, hk, hwithin⟩
    obtain ⟨m, hm, -⟩ := h.complete (by simp) hwithin hk h.origin (Nat.zero_add k).le
    exact ⟨m, hm⟩

end Frontier

end BreadthFirst
