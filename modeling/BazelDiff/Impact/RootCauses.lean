/-
# Root causes, their paths and the subgraph

What `explain` reports is read off a finished walk: the direct labels it reached, the
parent chain of each, and the labels on the chains that are kept. The chains are real
dependency paths of the reported length, so nothing is indexed that is not there.
-/

import BazelDiff.Impact.ExplainWalk
import BazelDiff.Lib.Sorting

namespace BazelDiff

open BreadthFirst Outcome

variable {D : Type} [DecidableEq D]

section Paths

variable {depEdges : StringMap (List String)} {impacted : StringMap ImpactType}
  {target : String} {maxDepth : Option Nat} {walk : Upstream}

/-- The parent chain of a known label is a path of its distance. -/
theorem parentChain_ok (h : Searching depEdges impacted target maxDepth walk) {n : Nat}
    {label : String} (hn : walk.distances[label]? = some n) {fuel : Nat} (hfuel : n + 1 ≤ fuel) :
    ∃ path, parentChain walk.parents fuel label = .ok path ∧ path.length = n + 1 ∧
      ChainTo (Uses depEdges impacted) (· = label) target path.reverse := by
  induction n generalizing label fuel with
  | zero =>
      obtain ⟨fuel, rfl⟩ := Nat.exists_eq_succ_of_ne_zero (show fuel ≠ 0 by omega)
      obtain rfl : label = target := by
        by_contra hne
        obtain ⟨a, m, -, -, -, hm⟩ := h.frontier.child label 0 hn hne
        omega
      have hroot : walk.parents[label]? = none := h.frontier.root
      refine ⟨[label], ?_, rfl, ⟨rfl, .singleton _, label, rfl, rfl⟩⟩
      rw [parentChain, hroot]
  | succ n ih =>
      obtain ⟨fuel, rfl⟩ := Nat.exists_eq_succ_of_ne_zero (show fuel ≠ 0 by omega)
      have hne : label ≠ target := by
        rintro rfl
        have horigin : walk.distances[label]? = some 0 := h.frontier.origin
        rw [horigin] at hn
        cases hn
      obtain ⟨parent, m, hparent, huses, hm, heq⟩ := h.frontier.child label (n + 1) hn hne
      obtain rfl : m = n := by omega
      obtain ⟨path, hpath, hlength, hchain⟩ := ih hm (show m + 1 ≤ fuel by omega)
      refine ⟨label :: path, ?_, by simp [hlength], ?_⟩
      · rw [parentChain]
        simp only [hparent, hpath]
        rfl
      · rw [List.reverse_cons]
        exact hchain.snoc huses

theorem pathToTarget_ok (h : Searching depEdges impacted target maxDepth walk) {n : Nat}
    {label : String} (hn : walk.distances[label]? = some n) :
    ∃ path, pathToTarget label walk.parents = .ok path ∧ path.length = n + 1 ∧
      ChainTo (Uses depEdges impacted) (· = label) target path.reverse :=
  parentChain_ok h hn (Nat.add_le_add_right (h.rooted.enough label n hn) 1)

/-- The labels of a path are impacted. -/
theorem mem_impacted_of_chain {goal : String → Prop} {path : List String}
    (htarget : target ∈ impacted) (h : ChainTo (Uses depEdges impacted) goal target path)
    {label : String} (hlabel : label ∈ path) : label ∈ impacted := by
  obtain ⟨before, after, rfl⟩ := List.append_of_mem hlabel
  cases before.eq_nil_or_concat' with
  | inl hnil =>
      subst hnil
      obtain rfl : label = target := by simpa using h.head
      exact htarget
  | inr hlast =>
      obtain ⟨front, last, rfl⟩ := hlast
      have hchain := h.chain
      rw [List.append_assoc, List.singleton_append, List.isChain_append_cons_cons] at hchain
      exact mem_of_mem_impactedDeps hchain.2.1.2

/-- A prefix of a path ends at a known label, if the walk knows the path's end and nothing
nearer is hidden. -/
theorem mem_distances_of_chain (h : Searching depEdges impacted target maxDepth walk)
    (hqueue : walk.queue = []) {path : List String} {goal : String → Prop}
    (hpath : ChainTo (Uses depEdges impacted) goal target path)
    (hdepth : ∀ d, maxDepth = some d → path.length - 1 ≤ d) {label : String}
    (hlabel : label ∈ path) : ∃ n, walk.distances[label]? = some n := by
  have hfrontier := h.frontier
  rw [hqueue] at hfrontier
  apply hfrontier.discovered_iff.mpr
  obtain ⟨before, after, rfl⟩ := List.append_of_mem hlabel
  refine ⟨(before ++ [label]).length - 1, ?_, ?_⟩
  · rw [reaches_iff_hopsTo]
    refine ⟨before ++ [label], ⟨?_, ?_, label, by simp, rfl⟩, rfl⟩
    · have hhead := hpath.head
      cases before with
      | nil => simpa using hhead
      | cons first rest => simpa using hhead
    · have hchain := hpath.chain
      rw [List.append_cons] at hchain
      exact (List.isChain_append.mp hchain).1
  · intro d hd
    have := hdepth d hd
    simp only [List.length_append, List.length_cons, List.length_nil] at this ⊢
    omega

end Paths

/-! ## Root causes -/

/-- A root cause that is what it says: the shortest distance, and a path of it. -/
structure Attributed (depEdges : StringMap (List String)) (impacted : StringMap ImpactType)
    (target : String) (cause : RootCause) : Prop where
  least : IsLeast {n | HopsTo depEdges impacted target cause.label n} cause.targetDistance
  path : ChainTo (Uses depEdges impacted) (· = cause.label) target cause.path.reverse
  length : cause.path.length = cause.targetDistance + 1
  hops : cause.packageHops = packageHops cause.path

instance : Std.Total RootCause.Before where
  total a b := by
    rcases Nat.lt_trichotomy a.targetDistance b.targetDistance with hlt | heq | hgt
    · exact .inl (.inl hlt)
    · rcases le_total a.label b.label with hle | hle
      · exact .inl (.inr ⟨heq, hle⟩)
      · exact .inr (.inr ⟨heq.symm, hle⟩)
    · exact .inr (.inl hgt)

instance : IsTrans RootCause RootCause.Before where
  trans a b c := by
    rintro (hab | ⟨hab, hab'⟩) (hbc | ⟨hbc, hbc'⟩)
    · exact .inl (by omega)
    · exact .inl (by omega)
    · exact .inl (by omega)
    · exact .inr ⟨by omega, hab'.trans hbc'⟩

section Causes

variable {depEdges : StringMap (List String)} {impacted : StringMap ImpactType}
  {target : String} {maxDepth : Option Nat} {walk : Upstream}

omit [DecidableEq D] in
theorem rootCause_ok (h : Searching depEdges impacted target maxDepth walk)
    (hqueue : walk.queue = []) (start final : StringMap (TargetHash D)) {entry : String × Nat}
    (hentry : walk.distances[entry.1]? = some entry.2) :
    ∃ cause, rootCause start final walk.parents entry = .ok cause ∧ cause.label = entry.1 ∧
      Attributed depEdges impacted target cause := by
  obtain ⟨path, hpath, hlength, hchain⟩ := pathToTarget_ok h hentry
  have hfrontier := h.frontier
  rw [hqueue] at hfrontier
  refine ⟨_, by rw [rootCause, hpath]; rfl, rfl, ⟨?_, hchain, hlength, rfl⟩⟩
  simp only [← reaches_iff_hopsTo]
  exact hfrontier.finished hentry

omit [DecidableEq D] in
/-- The uncut list: one attributed cause for every direct label the walk reached, sorted. -/
theorem allRootCauses_ok (h : Searching depEdges impacted target maxDepth walk)
    (hqueue : walk.queue = []) (start final : StringMap (TargetHash D)) :
    ∃ all, allRootCauses start final impacted walk = .ok all ∧
      all.Pairwise RootCause.Before ∧ (all.map (·.label)).Nodup ∧
      (∀ cause ∈ all, Attributed depEdges impacted target cause) ∧
      ∀ label, label ∈ all.map (·.label) ↔ impacted[label]? = some .direct ∧
        ∃ n, HopsTo depEdges impacted target label n ∧ ∀ d, maxDepth = some d → n ≤ d := by
  have hfrontier := h.frontier
  rw [hqueue] at hfrontier
  obtain ⟨roots, hmapM, hall⟩ := @mapM_ok Failure RootCause (String × Nat)
    (fun entry cause => cause.label = entry.1 ∧ Attributed depEdges impacted target cause)
    (rootCause start final walk.parents)
    (walk.distances.toList.filter fun entry => impacted[entry.1]? = some .direct)
    fun entry hentry => rootCause_ok h hqueue start final
      (Std.ExtTreeMap.mem_toList_iff_getElem?_eq_some.mp (List.mem_filter.mp hentry).1)
  have hperm := List.perm_insertionSort RootCause.Before roots
  have hlabels : roots.map (·.label) = (walk.distances.toList.filter fun entry =>
      impacted[entry.1]? = some .direct).map Prod.fst :=
    hall.map_eq fun _ _ hgood => hgood.1
  refine ⟨roots.insertionSort RootCause.Before, ?_, List.pairwise_insertionSort _ _, ?_, ?_, ?_⟩
  · rw [allRootCauses, hmapM]
    rfl
  · rw [(hperm.map _).nodup_iff, hlabels]
    apply List.Nodup.sublist (List.filter_sublist.map Prod.fst)
    rw [Std.ExtTreeMap.map_fst_toList_eq_keys]
    exact Std.ExtTreeMap.nodup_keys
  · intro cause hcause
    obtain ⟨entry, -, hgood⟩ := hall.exists_left (hperm.mem_iff.mp hcause)
    exact hgood.2
  · intro label
    rw [(hperm.map _).mem_iff, hlabels, List.mem_map]
    have hknown := @Frontier.discovered_iff _ _ _ _ _ _ hfrontier label
    simp only [reaches_iff_hopsTo] at hknown
    rw [← hknown]
    constructor
    · rintro ⟨entry, hentry, rfl⟩
      obtain ⟨hmem, hdirect⟩ := List.mem_filter.mp hentry
      exact ⟨by simpa using hdirect, entry.2,
        Std.ExtTreeMap.mem_toList_iff_getElem?_eq_some.mp hmem⟩
    · rintro ⟨hdirect, n, hn⟩
      refine ⟨(label, n), List.mem_filter.mpr ⟨?_, by simpa using hdirect⟩, rfl⟩
      exact Std.ExtTreeMap.mem_toList_iff_getElem?_eq_some.mpr hn

/-! ## The subgraph -/

theorem mem_includedLabels {roots : List RootCause} {label : String} :
    label ∈ includedLabels roots target ↔ label = target ∨ ∃ root ∈ roots, label ∈ root.path := by
  rw [includedLabels, Std.ExtTreeSet.mem_insert, compare_eq_iff_eq,
    ← Std.ExtTreeSet.contains_iff_mem, Std.ExtTreeSet.contains_ofList]
  rw [List.contains_iff_mem, List.mem_flatMap]
  constructor
  · exact fun h => h.imp_left Eq.symm
  · exact fun h => h.imp_left Eq.symm

omit [DecidableEq D] in
/-- The subgraph of attributed causes has a node for every label on their paths. -/
theorem buildSubgraph_ok (h : Searching depEdges impacted target maxDepth walk)
    (hqueue : walk.queue = []) (htarget : target ∈ impacted)
    (start final : StringMap (TargetHash D)) {roots : List RootCause}
    (hroots : ∀ root ∈ roots, Attributed depEdges impacted target root)
    (hknown : ∀ root ∈ roots, ∀ d, maxDepth = some d → root.targetDistance ≤ d) :
    ∃ nodes edges, buildSubgraph roots target walk.distances impacted depEdges final start =
        .ok (nodes, edges) ∧
      (nodes.map (·.label)).Nodup ∧
      ∀ label, label ∈ nodes.map (·.label) ↔
        label = target ∨ ∃ root ∈ roots, label ∈ root.path := by
  have hlabels : ∀ label ∈ (includedLabels roots target).toList,
      label ∈ impacted ∧ ∃ n, walk.distances[label]? = some n := by
    intro label hlabel
    rw [Std.ExtTreeSet.mem_toList, mem_includedLabels] at hlabel
    rcases hlabel with rfl | ⟨root, hroot, hmem⟩
    · exact ⟨htarget, 0, h.frontier.origin⟩
    · have hpath := (hroots root hroot).path
      have hmem' : label ∈ root.path.reverse := List.mem_reverse.mpr hmem
      refine ⟨mem_impacted_of_chain htarget hpath hmem', ?_⟩
      apply mem_distances_of_chain h hqueue hpath _ hmem'
      intro d hd
      have hlength := (hroots root hroot).length
      have hle := hknown root hroot d hd
      rw [List.length_reverse]
      omega
  obtain ⟨nodes, hnodes, hall⟩ := @mapM_ok Failure ExplainNode String
    (fun label node => node.label = label)
    (explainNode start final impacted walk.distances (roots.map (·.label)) target)
    (includedLabels roots target).toList (by
      intro label hlabel
      obtain ⟨himpacted, n, hn⟩ := hlabels label hlabel
      obtain ⟨impact, himpact⟩ := Option.isSome_iff_exists.mp
        (Std.ExtTreeMap.mem_iff_isSome_getElem?.mp himpacted)
      exact ⟨_, by rw [explainNode, index_eq_ok himpact, index_eq_ok hn]; rfl, rfl⟩)
  have hperm := List.perm_insertionSort ExplainNode.Before nodes
  have hnames : nodes.map (·.label) = (includedLabels roots target).toList := by
    rw [hall.map_eq fun _ _ hlabel => hlabel, List.map_id']
  refine ⟨nodes.insertionSort ExplainNode.Before, _, by rw [buildSubgraph, hnodes]; rfl, ?_, ?_⟩
  · rw [(hperm.map _).nodup_iff, hnames]
    apply Std.ExtTreeSet.distinct_toList.imp
    intro a b hab heq
    exact hab (compare_eq_iff_eq.mpr heq)
  · intro label
    rw [(hperm.map _).mem_iff, hnames, Std.ExtTreeSet.mem_toList, mem_includedLabels]

end Causes

/-! ## The report -/

section Report

variable (start final : StringMap (TargetHash D)) (depEdges : StringMap (List String))

theorem mem_final_of_impacted {start final : StringMap (TargetHash D)} {label : String}
    (h : label ∈ impactedTypes start final) : label ∈ final := by
  rw [Std.ExtTreeMap.mem_iff_isSome_getElem?, impactedTypes,
    Std.ExtTreeMap.getElem?_filterMap'] at h
  rw [Std.ExtTreeMap.mem_iff_isSome_getElem?]
  cases hfinal : final[label]? with
  | none =>
      rw [hfinal] at h
      cases h
  | some hash => rfl

/-- The causes that are kept. -/
def keptCauses (maxRoots : Nat) (all : List RootCause) : List RootCause :=
  if maxRoots = 0 then all else all.take maxRoots

theorem keptCauses_eq (maxRoots : Nat) (all : List RootCause) :
    (if (decide (0 < maxRoots) && decide (maxRoots < all.length)) = true then all.take maxRoots
      else all) = keptCauses maxRoots all := by
  rw [keptCauses]
  by_cases hzero : maxRoots = 0
  · simp [hzero]
  · rw [if_neg hzero]
    split
    · rfl
    · next hcut =>
        rw [List.take_of_length_le]
        simp at hcut
        omega

theorem mem_of_mem_keptCauses {maxRoots : Nat} {all : List RootCause} {cause : RootCause}
    (h : cause ∈ keptCauses maxRoots all) : cause ∈ all := by
  rw [keptCauses] at h
  split at h
  · exact h
  · exact List.mem_of_mem_take h

omit [DecidableEq D] in
/-- The causes that are kept are attributed and within the bound. -/
theorem keptCauses_attributed {depEdges : StringMap (List String)}
    {impacted : StringMap ImpactType} {target : String} {maxDepth : Option Nat} {walk : Upstream}
    (h : Searching depEdges impacted target maxDepth walk) (hqueue : walk.queue = [])
    {start final : StringMap (TargetHash D)} {all : List RootCause}
    (hall : allRootCauses start final impacted walk = .ok all) (maxRoots : Nat) :
    (∀ root ∈ keptCauses maxRoots all, Attributed depEdges impacted target root) ∧
      ∀ root ∈ keptCauses maxRoots all, ∀ d, maxDepth = some d → root.targetDistance ≤ d := by
  obtain ⟨all', hall', -, -, hattributed, hmem⟩ := allRootCauses_ok h hqueue start final
  rw [hall] at hall'
  cases hall'
  have hkept : ∀ root ∈ keptCauses maxRoots all, Attributed depEdges impacted target root :=
    fun root hroot => hattributed root (mem_of_mem_keptCauses hroot)
  refine ⟨hkept, ?_⟩
  intro root hroot d hd
  have hlabel := List.mem_map_of_mem (f := RootCause.label) (mem_of_mem_keptCauses hroot)
  obtain ⟨-, n, hn, hle⟩ := (hmem root.label).mp hlabel
  exact ((hkept root hroot).least.2 hn).trans (hle d hd)

/-- What `explain` does for an impacted target, once the walk and its causes are known. -/
theorem explain_ok {target : String} (htarget : target ∈ impactedTypes start final)
    (limits : ExplainLimits) :
    ∃ walk all nodes edges outcome,
      walkUpstream depEdges (impactedTypes start final) target limits.maxDepth = .ok walk ∧
      Searching depEdges (impactedTypes start final) target limits.maxDepth walk ∧
      walk.queue = [] ∧
      allRootCauses start final (impactedTypes start final) walk = .ok all ∧
      buildSubgraph (keptCauses limits.maxRoots all) target walk.distances
        (impactedTypes start final) depEdges final start = .ok (nodes, edges) ∧
      explain start final depEdges target limits = .ok outcome ∧
      outcome.explanation.rootCauses = keptCauses limits.maxRoots all ∧
      outcome.explanation.totalRootCauses = all.length ∧
      outcome.explanation.nodes = nodes ∧
      outcome.warnings =
        if walk.truncatedByDepth then [depthWarning limits.maxDepth target] else [] := by
  obtain ⟨walk, hwalk, hsearching, hqueue⟩ := @walkUpstream_searching depEdges _ _
    limits.maxDepth htarget
  obtain ⟨all, hall, -⟩ := allRootCauses_ok hsearching hqueue start final
  obtain ⟨hkept, hknown⟩ := keptCauses_attributed hsearching hqueue hall limits.maxRoots
  obtain ⟨nodes, edges, hgraph, -, -⟩ := buildSubgraph_ok hsearching hqueue htarget start final
    hkept hknown
  have houtcome : ∃ outcome, explain start final depEdges target limits = .ok outcome ∧
      outcome.explanation.rootCauses = keptCauses limits.maxRoots all ∧
      outcome.explanation.totalRootCauses = all.length ∧
      outcome.explanation.nodes = nodes ∧
      outcome.warnings =
        if walk.truncatedByDepth then [depthWarning limits.maxDepth target] else [] := by
    have hfinal : final.contains target = true :=
      Std.ExtTreeMap.contains_iff_mem.mpr (mem_final_of_impacted htarget)
    have himpacted : (impactedTypes start final).contains target = true :=
      Std.ExtTreeMap.contains_iff_mem.mpr htarget
    rw [explain, hfinal, himpacted]
    simp only [Bool.not_true, Bool.false_and, Bool.false_eq_true, if_false, hwalk, hall, hgraph,
      ok_bind, keptCauses_eq]
    exact ⟨_, rfl, rfl, rfl, rfl, rfl⟩
  obtain ⟨outcome, hexplain⟩ := houtcome
  exact ⟨walk, all, nodes, edges, outcome, hwalk, hsearching, hqueue, hall, hgraph, hexplain⟩

/-- The uncut causes of an explanation, with everything the report says about them. -/
theorem explain_causes {target : String} (htarget : target ∈ impactedTypes start final)
    (limits : ExplainLimits) :
    ∃ outcome all, explain start final depEdges target limits = .ok outcome ∧
      outcome.explanation.rootCauses = keptCauses limits.maxRoots all ∧
      outcome.explanation.totalRootCauses = all.length ∧
      all.Pairwise RootCause.Before ∧ (all.map (·.label)).Nodup ∧
      (∀ cause ∈ all, Attributed depEdges (impactedTypes start final) target cause) ∧
      ∀ label, label ∈ all.map (·.label) ↔ (impactedTypes start final)[label]? = some .direct ∧
        ∃ n, HopsTo depEdges (impactedTypes start final) target label n ∧
          ∀ d, limits.maxDepth = some d → n ≤ d := by
  obtain ⟨walk, all, nodes, edges, outcome, -, hsearching, hqueue, hall, -, hexplain, hroots,
    htotal, -, -⟩ := explain_ok start final depEdges htarget limits
  obtain ⟨all', hall', hspec⟩ := allRootCauses_ok hsearching hqueue start final
  rw [hall] at hall'
  cases hall'
  exact ⟨outcome, all, hexplain, hroots, htotal, hspec⟩

/-- An explanation has a node for the target and for every label on a reported path. -/
theorem explain_nodes {target : String} (htarget : target ∈ impactedTypes start final)
    {limits : ExplainLimits} {outcome : ExplainOutcome}
    (hexplain : explain start final depEdges target limits = .ok outcome) :
    (outcome.explanation.nodes.map (·.label)).Nodup ∧
      ∀ label, label ∈ outcome.explanation.nodes.map (·.label) ↔
        label = target ∨ ∃ root ∈ outcome.explanation.rootCauses, label ∈ root.path := by
  obtain ⟨walk, all, nodes, edges, outcome', -, hsearching, hqueue, hall, hgraph, hexplain',
    hroots, -, hnodes, -⟩ := explain_ok start final depEdges htarget limits
  rw [hexplain] at hexplain'
  cases hexplain'
  obtain ⟨hkept, hknown⟩ := keptCauses_attributed hsearching hqueue hall limits.maxRoots
  obtain ⟨nodes', edges', hgraph', hspec⟩ := buildSubgraph_ok hsearching hqueue htarget start final
    hkept hknown
  rw [hgraph] at hgraph'
  cases hgraph'
  rw [hnodes, hroots]
  exact hspec

/-- For an impacted target and any limits, `explain` returns. Before the cut its root causes
are the direct labels within reach, each once, nearest first; every one has the least
distance and a path of that length through impacted labels. The nodes are the labels of the
reported paths and the target. -/
theorem explain_exact {target : String} (htarget : target ∈ impactedTypes start final)
    (limits : ExplainLimits) :
    ∃ outcome all, explain start final depEdges target limits = .ok outcome ∧
      outcome.explanation.rootCauses = keptCauses limits.maxRoots all ∧
      outcome.explanation.totalRootCauses = all.length ∧
      all.Pairwise RootCause.Before ∧ (all.map (·.label)).Nodup ∧
      (∀ label, label ∈ all.map (·.label) ↔ (impactedTypes start final)[label]? = some .direct ∧
        ∃ n, HopsTo depEdges (impactedTypes start final) target label n ∧
          ∀ d, limits.maxDepth = some d → n ≤ d) ∧
      (∀ cause ∈ all,
        IsLeast {n | HopsTo depEdges (impactedTypes start final) target cause.label n}
          cause.targetDistance ∧
        ChainTo (Uses depEdges (impactedTypes start final)) (· = cause.label) target
          cause.path.reverse ∧
        cause.path.length = cause.targetDistance + 1 ∧
        (∀ label ∈ cause.path, label ∈ impactedTypes start final) ∧
        cause.packageHops = packageHops cause.path) ∧
      (outcome.explanation.nodes.map (·.label)).Nodup ∧
      ∀ label, label ∈ outcome.explanation.nodes.map (·.label) ↔
        label = target ∨ ∃ root ∈ outcome.explanation.rootCauses, label ∈ root.path := by
  obtain ⟨outcome, all, hexplain, hroots, htotal, hsorted, hnodup, hattributed, hmem⟩ :=
    explain_causes start final depEdges htarget limits
  refine ⟨outcome, all, hexplain, hroots, htotal, hsorted, hnodup, hmem, ?_,
    explain_nodes start final depEdges htarget hexplain⟩
  intro cause hcause
  have hgood := hattributed cause hcause
  refine ⟨hgood.least, hgood.path, hgood.length, ?_, hgood.hops⟩
  intro label hlabel
  exact mem_impacted_of_chain htarget hgood.path (List.mem_reverse.mpr hlabel)

/-- A library and a binary that depend on each other. -/
def loopEdges : StringMap (List String) :=
  libraryEdges.insert "//a:lib" ["//b:bin", "//a:lib"]

/-- The binary's one cause is the library, although the walk could go around. -/
theorem loop_explained :
    "//b:bin" ∈ impactedTypes (libraryHashes 0) (libraryHashes 1) ∧
      ∃ outcome all, explain (libraryHashes 0) (libraryHashes 1) loopEdges "//b:bin"
          ⟨some 1, 1⟩ = .ok outcome ∧
        outcome.explanation.rootCauses = keptCauses 1 all ∧
        outcome.explanation.totalRootCauses = all.length ∧
        ∀ cause ∈ all, cause.path.length = cause.targetDistance + 1 := by
  have htarget : "//b:bin" ∈ impactedTypes (libraryHashes 0) (libraryHashes 1) := by
    decide +kernel
  obtain ⟨outcome, all, hexplain, hroots, htotal, -, -, -, hcauses, -⟩ :=
    explain_exact (libraryHashes 0) (libraryHashes 1) loopEdges htarget ⟨some 1, 1⟩
  exact ⟨htarget, outcome, all, hexplain, hroots, htotal,
    fun cause hcause => (hcauses cause hcause).2.2.1⟩

end Report

end BazelDiff
