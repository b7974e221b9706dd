/-
# The depth bound

A bounded walk warns when a label at the bound has an impacted dependency that is not
known yet. Labels leave the queue by distance, so at that moment everything within the
bound is known: the warning is given exactly when something reachable is farther away.
A walk that ends without it never had anything to leave out, and is the unbounded walk
step by step.
-/

import BazelDiff.Impact.RootCauses

namespace BazelDiff

open BreadthFirst Outcome

section Walk

variable {depEdges : StringMap (List String)} {impacted : StringMap ImpactType} {target : String}

/-! ## The flag -/

/-- Without the flag, the dependencies of known labels are known. -/
theorem Searching.known_of_quiet {maxDepth : Option Nat} {walk : Upstream}
    (h : Searching depEdges impacted target maxDepth walk) (hqueue : walk.queue = [])
    (hflag : walk.truncatedByDepth = false) {label dep : String} {n : Nat}
    (hlabel : walk.distances[label]? = some n) (hdep : Uses depEdges impacted label dep) :
    ∃ m, walk.distances[dep]? = some m := by
  have hout : label ∉ walk.queue := by simp [hqueue]
  by_cases hbound : Expanded maxDepth n
  · obtain ⟨m, hm, -⟩ := h.frontier.closed label n hlabel hout hbound dep hdep
    exact ⟨m, hm⟩
  · obtain ⟨d, hd, hle⟩ : ∃ d, maxDepth = some d ∧ d ≤ n := by
      simpa [Expanded] using hbound
    obtain rfl : d = n := Nat.le_antisymm hle (h.frontier.bounded label n d hlabel hd)
    exact h.quiet hflag d hd label hlabel hout dep hdep

theorem Searching.reachable_known {maxDepth : Option Nat} {walk : Upstream}
    (h : Searching depEdges impacted target maxDepth walk) (hqueue : walk.queue = [])
    (hflag : walk.truncatedByDepth = false) {label dep : String} {k : Nat}
    (hwalk : Reaches (Uses depEdges impacted) dep label k)
    (hlabel : ∃ n, walk.distances[label]? = some n) : ∃ m, walk.distances[dep]? = some m := by
  induction hwalk with
  | stop hstop =>
      obtain ⟨rfl, -⟩ := hstop
      exact hlabel
  | step huses rest ih =>
      obtain ⟨n, hn⟩ := hlabel
      exact ih (h.known_of_quiet hqueue hflag hn huses)

/-- The flag of a finished walk says whether something reachable is beyond the bound. -/
theorem Searching.truncatedByDepth_iff {depth : Nat} {walk : Upstream}
    (h : Searching depEdges impacted target (some depth) walk) (hqueue : walk.queue = []) :
    walk.truncatedByDepth = true ↔ Beyond depEdges impacted target depth := by
  constructor
  · intro hflag
    obtain ⟨d, hd, hbeyond⟩ := h.raised hflag
    cases hd
    exact hbeyond
  · rintro ⟨label, n, hleast, hlt⟩
    by_contra hflag
    have hquiet : walk.truncatedByDepth = false := by simpa using hflag
    have hreach : Reaches (Uses depEdges impacted) label target n :=
      reaches_iff_hopsTo.mpr hleast.1
    obtain ⟨m, hm⟩ := h.reachable_known hqueue hquiet hreach ⟨0, h.frontier.origin⟩
    have hbounded : m ≤ depth := h.frontier.bounded label m depth hm rfl
    have hle : n ≤ m := hleast.2 (reaches_iff_hopsTo.mp (h.frontier.sound hm))
    omega

/-! ## A walk without the flag -/

theorem visitUpstream_flag {maxDepth : Option Nat} {walk next : Upstream} {current : String}
    (h : visitUpstream depEdges impacted maxDepth walk current = .ok next)
    (hflag : walk.truncatedByDepth = true) : next.truncatedByDepth = true := by
  rw [visitUpstream] at h
  obtain ⟨depth, -, h⟩ := bind_eq_ok h
  split at h
  · cases h
    rw [hflag]
    rfl
  · cases h
    obtain ⟨news, -, -, hkept, -⟩ := @foldl_discover impacted current depth
      ((depEdges[current]?).getD []) walk
    exact hkept.trans hflag

theorem walkLoop_flag {maxDepth : Option Nat} (fuel : Nat) {walk result : Upstream}
    (h : walkLoop depEdges impacted maxDepth fuel walk = .ok result)
    (hflag : walk.truncatedByDepth = true) : result.truncatedByDepth = true := by
  induction fuel generalizing walk with
  | zero =>
      rw [walkLoop] at h
      split at h
      · cases h
        exact hflag
      · cases h
  | succ fuel ih =>
      rw [walkLoop] at h
      split at h
      · cases h
        exact hflag
      · obtain ⟨next, hnext, h⟩ := bind_eq_ok h
        exact ih h (visitUpstream_flag hnext hflag)

theorem foldl_discover_known {current : String} {depth : Nat} {deps : List String}
    {walk : Upstream} (h : ∀ dep ∈ deps, ¬ (dep ∈ impacted ∧ walk.distances[dep]? = none)) :
    deps.foldl (discover impacted current depth) walk = walk := by
  induction deps with
  | nil => rfl
  | cons dep deps ih =>
      rw [List.foldl_cons, discover_known (h dep List.mem_cons_self)]
      exact ih fun other hother => h other (List.mem_cons_of_mem _ hother)

/-- A round that hides nothing is a round without a bound. -/
theorem visitUpstream_unbounded {maxDepth : Option Nat} {walk next : Upstream} {current : String}
    (h : visitUpstream depEdges impacted maxDepth walk current = .ok next)
    (hflag : next.truncatedByDepth = false) :
    visitUpstream depEdges impacted none walk current = .ok next := by
  rw [visitUpstream] at h ⊢
  obtain ⟨depth, hdepth, h⟩ := bind_eq_ok h
  rw [hdepth]
  show Except.ok (((depEdges[current]?).getD []).foldl (discover impacted current depth) walk) =
    Except.ok next
  split at h
  · cases h
    obtain ⟨hquiet, hnone⟩ := Bool.or_eq_false_iff.mp hflag
    rw [foldl_discover_known]
    · rw [hnone, Bool.or_false]
    · rintro dep hdep ⟨himpacted, hunknown⟩
      have hshown := List.any_eq_false.mp hnone dep hdep
      rw [Std.ExtTreeMap.contains_eq_isSome_getElem? (t := walk.distances), hunknown,
        Std.ExtTreeMap.contains_iff_mem.mpr himpacted] at hshown
      exact hshown rfl
  · exact h

theorem walkLoop_unbounded {maxDepth : Option Nat} (fuel : Nat) {walk result : Upstream}
    (h : walkLoop depEdges impacted maxDepth fuel walk = .ok result)
    (hflag : result.truncatedByDepth = false) :
    walkLoop depEdges impacted none fuel walk = .ok result := by
  induction fuel generalizing walk with
  | zero =>
      rw [walkLoop] at h ⊢
      split at h
      · exact h
      · cases h
  | succ fuel ih =>
      rw [walkLoop] at h ⊢
      split at h
      · exact h
      · obtain ⟨next, hnext, h⟩ := bind_eq_ok h
        have hquiet : next.truncatedByDepth = false := by
          by_contra hraised
          rw [walkLoop_flag fuel h (by simpa using hraised)] at hflag
          cases hflag
        rw [visitUpstream_unbounded hnext hquiet]
        exact ih h

end Walk

/-! ## The explanation -/

section Report

variable {D : Type} [DecidableEq D] (start final : StringMap (TargetHash D))
  (depEdges : StringMap (List String))

/-- `explain` reads the bound for the walk and in the warning only. -/
theorem explain_congr_maxDepth {target : String} {walk : Upstream} {maxDepth : Option Nat}
    (hwalk : walkUpstream depEdges (impactedTypes start final) target maxDepth = .ok walk)
    (hnone : walkUpstream depEdges (impactedTypes start final) target none = .ok walk)
    (hflag : walk.truncatedByDepth = false) (maxRoots : Nat) :
    explain start final depEdges target ⟨maxDepth, maxRoots⟩ =
      explain start final depEdges target ⟨none, maxRoots⟩ := by
  simp only [explain, hwalk, hnone, ok_bind, hflag]
  rfl

/-- The depth warning is given exactly when some reachable label is beyond the bound, and
without it the explanation is the unbounded one. -/
theorem depth_bound_exact {target : String} (htarget : target ∈ impactedTypes start final)
    (depth : Nat) :
    (∃ walk, walkUpstream depEdges (impactedTypes start final) target (some depth) = .ok walk ∧
      (walk.truncatedByDepth = true ↔
        Beyond depEdges (impactedTypes start final) target depth)) ∧
    ∀ maxRoots, ∃ outcome,
      explain start final depEdges target ⟨some depth, maxRoots⟩ = .ok outcome ∧
      (outcome.warnings ≠ [] ↔ Beyond depEdges (impactedTypes start final) target depth) ∧
      (outcome.warnings = [] →
        explain start final depEdges target ⟨none, maxRoots⟩ = .ok outcome) := by
  obtain ⟨walk, hwalk, hsearching, hqueue⟩ := @walkUpstream_searching depEdges _ _
    (some depth) htarget
  have hflag := hsearching.truncatedByDepth_iff hqueue
  refine ⟨⟨walk, hwalk, hflag⟩, ?_⟩
  intro maxRoots
  obtain ⟨walk', all, nodes, edges, outcome, hwalk', -, -, -, -, hexplain, -, -, -, hwarnings⟩ :=
    explain_ok start final depEdges htarget ⟨some depth, maxRoots⟩
  rw [hwalk] at hwalk'
  cases hwalk'
  refine ⟨outcome, hexplain, ?_, ?_⟩
  · rw [← hflag, hwarnings]
    split
    · next hraised => simp [hraised]
    · next hraised => simp [hraised]
  · intro hnone
    have hquiet : walk.truncatedByDepth = false := by
      by_contra hraised
      rw [hwarnings, if_pos (by simpa using hraised)] at hnone
      cases hnone
    have hunbounded : walkUpstream depEdges (impactedTypes start final) target none = .ok walk :=
      walkLoop_unbounded _ hwalk hquiet
    rw [← explain_congr_maxDepth start final depEdges hwalk hunbounded hquiet]
    exact hexplain

/-- One hop is enough to explain the binary. -/
theorem loop_depth_bound :
    ∃ outcome, explain (libraryHashes 0) (libraryHashes 1) loopEdges "//b:bin" ⟨some 1, 0⟩ =
        .ok outcome ∧
      (outcome.warnings ≠ [] ↔ Beyond loopEdges
        (impactedTypes (libraryHashes 0) (libraryHashes 1)) "//b:bin" 1) := by
  obtain ⟨-, hexplain⟩ := depth_bound_exact (libraryHashes 0) (libraryHashes 1) loopEdges
    (show "//b:bin" ∈ impactedTypes (libraryHashes 0) (libraryHashes 1) by decide +kernel) 1
  obtain ⟨outcome, houtcome, hwarned, -⟩ := hexplain 0
  exact ⟨outcome, houtcome, hwarned⟩

end Report

end BazelDiff
