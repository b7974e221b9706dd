/-
# What a validation accepts

A validation is a sequence of steps that may each refuse. The rules here turn "it accepts" into
what each step asks for: a sequence accepts when its parts do, a loop when every one of its steps
does, and what a loop collects is what its steps yield.
-/

import BazelDiff.Lib.Outcome

namespace Outcome

variable {ε α β γ : Type}

theorem bind_eq_ok_iff {x : Except ε α} {f : α → Except ε β} {b : β} :
    x >>= f = .ok b ↔ ∃ a, x = .ok a ∧ f a = .ok b := by
  constructor
  · exact bind_eq_ok
  · rintro ⟨a, rfl, hf⟩
    exact hf

theorem pure_eq_ok_iff {a b : α} : (pure a : Except ε α) = .ok b ↔ a = b := by
  constructor
  · intro h
    exact Except.ok.inj h
  · rintro rfl
    rfl

theorem exists_unit_ok {P : Unit → Prop} : (∃ u, P u) ↔ P () :=
  ⟨fun ⟨_, h⟩ => h, fun h => ⟨(), h⟩⟩

/-- A loop of checks accepts when each accepts its item. -/
theorem forM_eq_ok_iff {f : γ → Except ε Unit} {items : List γ} {u : Unit} :
    items.forM f = .ok u ↔ ∀ item ∈ items, f item = .ok () := by
  induction items with
  | nil => exact ⟨fun _ item hitem => absurd hitem List.not_mem_nil, fun _ => rfl⟩
  | cons item rest ih =>
      show (f item >>= fun _ => rest.forM f) = .ok u ↔ _
      rw [bind_eq_ok_iff, exists_unit_ok, ih, List.forall_mem_cons]

/-- A loop yields something when each of its steps does. -/
theorem exists_mapM_iff {f : γ → Except ε α} {items : List γ} :
    (∃ results, items.mapM f = .ok results) ↔ ∀ item ∈ items, ∃ a, f item = .ok a := by
  constructor
  · rintro ⟨results, hresults⟩ item hitem
    obtain ⟨a, -, ha⟩ := (mapM_eq_ok_iff.mp hresults).exists_right hitem
    exact ⟨a, ha⟩
  · intro h
    obtain ⟨results, hresults, -⟩ := @mapM_ok ε α γ (fun item a => f item = .ok a) f items
      fun item hitem => (h item hitem).imp fun a ha => ⟨ha, ha⟩
    exact ⟨results, hresults⟩

/-- What a loop over lists collects. -/
theorem mem_flatten_of_mapM {f : γ → Except ε (List α)} {items : List γ}
    {results : List (List α)} (h : items.mapM f = .ok results) {a : α} :
    a ∈ results.flatten ↔ ∃ item ∈ items, ∃ found, f item = .ok found ∧ a ∈ found := by
  have hpairs := mapM_eq_ok_iff.mp h
  rw [List.mem_flatten]
  constructor
  · rintro ⟨found, hfound, ha⟩
    obtain ⟨item, hitem, hrun⟩ := hpairs.exists_left hfound
    exact ⟨item, hitem, found, hrun, ha⟩
  · rintro ⟨item, hitem, found, hrun, ha⟩
    obtain ⟨found', hfound', hrun'⟩ := hpairs.exists_right hitem
    rw [hrun] at hrun'
    cases hrun'
    exact ⟨found, hfound', ha⟩

/-- A filtering loop yields something when each of its steps does. -/
theorem exists_filterMapM_iff {f : γ → Except ε (Option α)} {items : List γ} :
    (∃ results, items.filterMapM f = .ok results) ↔
      ∀ item ∈ items, ∃ found, f item = .ok found := by
  constructor
  · rintro ⟨results, hresults⟩
    exact (mem_of_filterMapM hresults).1
  · exact filterMapM_ok

end Outcome
