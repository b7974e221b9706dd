/-
# Explanations and distances

The two reports about an impacted label share the classification of labels and nothing
else: one walks breadth-first from the label, the other recurses over all labels with a
memo. Both are least costs of dependency paths. Where the graph has no cycle and every
indirect label has an impacted dependency, distances are measured to direct labels, so
the nearest root cause is as far as the reported distance, and no path to a root cause
crosses fewer packages than reported.
-/

import BazelDiff.Impact.RootCauses

namespace BazelDiff

open Text BreadthFirst Relation

variable {D : Type} [DecidableEq D]

/-! ## Packages -/

theorem packageOf_eq_distancePackage (label : String) : packageOf label = distancePackage label := by
  by_cases hcolon : ':' ∈ label.toList
  · obtain ⟨front, back, hlabel, hfront⟩ := List.eq_append_cons_of_mem hcolon
    obtain rfl : label = String.ofList front ++ ":" ++ String.ofList back := by
      rw [← String.toList_inj, hlabel]
      simp
    have hfront' : ':' ∉ (String.ofList front).toList := by simpa using hfront
    rw [packageOf, splitOnce_append rfl hfront', distancePackage,
      show ":" = String.singleton ':' from rfl, split_append_singleton,
      split_eq_singleton hfront']
    rfl
  · rw [packageOf, splitOnce_eq_none rfl hcolon, distancePackage, split_eq_singleton hcolon]
    rfl

/-- The package hops of a path are the crossings of the walk it records. -/
theorem packageHops_eq_chainCost (path : List String) :
    packageHops path = chainCost crossing path.reverse := by
  rw [chainCost_reverse]
  induction path with
  | nil => rfl
  | cons label path ih =>
      cases path with
      | nil => rfl
      | cons next path =>
          rw [chainCost, ← ih]
          simp only [packageHops, List.tail_cons, List.zip_cons_cons, List.countP_cons, crossing,
            packageOf_eq_distancePackage, decide_eq_true_eq]
          exact Nat.add_comm _ _

/-! ## Root causes as the nearest base labels -/

section Graph

variable {depEdges : StringMap (List String)} {impacted : StringMap ImpactType}

/-- Distances are measured to direct labels, if no indirect label is without an impacted
dependency. -/
theorem base_eq_direct
    (hindirect : ∀ label : String, impacted[label]? = some .indirect →
      impactedDeps depEdges impacted label ≠ []) :
    Base depEdges impacted = fun label => impacted[label]? = some .direct := by
  funext label
  apply propext
  constructor
  · rintro (hdirect | ⟨hkind, hnone⟩)
    · exact hdirect
    · exact absurd hnone (hindirect label hkind)
  · exact Or.inl

/-- Complete attributed causes have the least distance to a direct label among them. -/
theorem isLeast_causes {label : String} {causes : List RootCause}
    (hattributed : ∀ cause ∈ causes, Attributed depEdges impacted label cause)
    (hmem : ∀ root, root ∈ causes.map (·.label) ↔
      impacted[root]? = some .direct ∧ ∃ n, HopsTo depEdges impacted label root n)
    {distance : Nat}
    (hleast : IsLeast {n | ∃ path, ChainTo (Uses depEdges impacted)
      (fun last => impacted[last]? = some .direct) label path ∧ path.length - 1 = n} distance) :
    IsLeast {n | ∃ cause ∈ causes, cause.targetDistance = n} distance := by
  have hlower : ∀ cause ∈ causes, distance ≤ cause.targetDistance := by
    intro cause hcause
    have hgood := hattributed cause hcause
    have hdirect := ((hmem cause.label).mp (List.mem_map_of_mem hcause)).1
    apply hleast.2
    refine ⟨cause.path.reverse, hgood.path.mono ?_, ?_⟩
    · rintro last rfl
      exact hdirect
    · rw [List.length_reverse, hgood.length, Nat.add_sub_cancel]
  constructor
  · obtain ⟨path, hpath, hlength⟩ := hleast.1
    obtain ⟨root, hlast, hdirect⟩ := hpath.last
    have hhops : HopsTo depEdges impacted label root distance :=
      ⟨path, ⟨hpath.head, hpath.chain, root, hlast, rfl⟩, hlength⟩
    obtain ⟨cause, hcause, rfl⟩ := List.mem_map.mp ((hmem root).mpr ⟨hdirect, distance, hhops⟩)
    refine ⟨cause, hcause, Nat.le_antisymm ?_ (hlower cause hcause)⟩
    exact (hattributed cause hcause).least.2 hhops
  · rintro n ⟨cause, hcause, rfl⟩
    exact hlower cause hcause

end Graph

/-! ## The two reports -/

/-- On an acyclic graph whose indirect labels all have impacted dependencies, the nearest
root cause of an impacted label is at its reported target distance, and every reported path
crosses at least as many packages as its reported package distance. -/
theorem explain_agrees_with_distances {order : StringMap ImpactType → List String}
    (horder : ∀ impactTypes, (order impactTypes).Perm impactTypes.keys)
    (start final : StringMap (TargetHash D)) (depEdges : StringMap (List String))
    (hsize : final.size ≤ usizeMax)
    (hacyclic : ∀ label, ¬ TransGen (Uses depEdges (impactedTypes start final)) label label)
    (hindirect : ∀ label : String, (impactedTypes start final)[label]? = some .indirect →
      impactedDeps depEdges (impactedTypes start final) label ≠ []) :
    ∃ targets, impactedTargetsWithDistances order start final depEdges none false = .ok targets ∧
      ∀ label ∈ impactedTypes start final,
        ∃ outcome, explain start final depEdges label ⟨none, 0⟩ = .ok outcome ∧
          (∃ target ∈ targets, target.label = label) ∧
          ∀ target ∈ targets, target.label = label →
            IsLeast {n | ∃ cause ∈ outcome.explanation.rootCauses, cause.targetDistance = n}
              target.targetDistance ∧
            ∀ cause ∈ outcome.explanation.rootCauses,
              target.packageDistance ≤ cause.packageHops := by
  obtain ⟨targets, htargets, -, hreported, hplaced⟩ := impactedTargetsWithDistances_placed
    horder start final depEdges (cyclesSettled_of_acyclic hacyclic)
  refine ⟨targets, htargets, ?_⟩
  intro label hlabel
  obtain ⟨outcome, all, hexplain, hroots, -, -, -, hattributed, hmem⟩ :=
    explain_causes start final depEdges hlabel ⟨none, 0⟩
  have hall : outcome.explanation.rootCauses = all := hroots
  refine ⟨outcome, hexplain, List.mem_map.mp ((hreported label).mpr hlabel), ?_⟩
  rintro target htarget rfl
  obtain ⟨hleast, hpackages⟩ := (hplaced target htarget).isLeast_of_acyclic hacyclic
    ((size_impactedTypes_le start final).trans hsize) hlabel
  rw [base_eq_direct hindirect] at hleast hpackages
  rw [hall]
  constructor
  · apply isLeast_causes hattributed
    · intro root
      rw [hmem]
      simp
    · exact hleast
  · intro cause hcause
    have hgood := hattributed cause hcause
    have hdirect := ((hmem cause.label).mp (List.mem_map_of_mem hcause)).1
    rw [hgood.hops, packageHops_eq_chainCost]
    apply hpackages.2
    refine ⟨cause.path.reverse, hgood.path.mono ?_, rfl⟩
    rintro last rfl
    exact hdirect

theorem library_reports_agree :
    ∃ targets, impactedTargetsWithDistances Std.ExtTreeMap.keys (libraryHashes 0)
        (libraryHashes 1) libraryEdges none false = .ok targets ∧
      ∃ outcome, explain (libraryHashes 0) (libraryHashes 1) libraryEdges "//b:bin" ⟨none, 0⟩ =
          .ok outcome ∧
        ∀ target ∈ targets, target.label = "//b:bin" →
          IsLeast {n | ∃ cause ∈ outcome.explanation.rootCauses, cause.targetDistance = n}
            target.targetDistance := by
  have hindirect : ∀ label : String,
      (impactedTypes (libraryHashes 0) (libraryHashes 1))[label]? = some .indirect →
      impactedDeps libraryEdges (impactedTypes (libraryHashes 0) (libraryHashes 1)) label ≠ [] := by
    intro label hkind
    have hmem : label ∈ (impactedTypes (libraryHashes 0) (libraryHashes 1)).keys :=
      Std.ExtTreeMap.mem_keys.mpr (mem_of_getElem? hkind)
    have hkeys : (impactedTypes (libraryHashes 0) (libraryHashes 1)).keys =
        ["//a:lib", "//b:bin"] := by
      decide +kernel
    rw [hkeys] at hmem
    rcases List.mem_cons.mp hmem with rfl | hmem
    · revert hkind
      decide +kernel
    · obtain rfl : label = "//b:bin" := by simpa using hmem
      decide +kernel
  obtain ⟨targets, htargets, hagree⟩ := explain_agrees_with_distances
    (fun impactTypes => List.Perm.refl _) (libraryHashes 0) (libraryHashes 1) libraryEdges
    (by decide +kernel) (libraryEdges_acyclic _) hindirect
  obtain ⟨outcome, hexplain, -, hleast⟩ := hagree "//b:bin" (by decide +kernel)
  exact ⟨targets, htargets, outcome, hexplain,
    fun target htarget heq => (hleast target htarget heq).1⟩

end BazelDiff
