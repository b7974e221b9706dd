/-
# The upstream walk

The walk is a breadth-first search over the impacted labels. One round either leaves a
label at the depth bound unexpanded or discovers its unknown impacted dependencies, so
every walk runs to the end of its queue and its distances are least. The flag that
reports a depth cut is decided while labels at the bound are taken from the queue; by
then everything within the bound is known, so what is not known is beyond it.
-/

import BazelDiff.Impact.Explain
import BazelDiff.Impact.ShortestPath
import BazelDiff.Lib.BreadthFirst

namespace BazelDiff

open BreadthFirst

section Walk

variable {depEdges : StringMap (List String)} {impacted : StringMap ImpactType}

theorem index_eq_ok {β : Type} {map : StringMap β} {key : String} {value : β}
    (h : map[key]? = some value) : index map key = .ok value := by
  rw [index, h]

/-! ## One round -/

theorem discover_known {current dep : String} {depth : Nat} {walk : Upstream}
    (h : ¬ (dep ∈ impacted ∧ walk.distances[dep]? = none)) :
    discover impacted current depth walk dep = walk := by
  rw [discover, if_pos]
  rw [Bool.or_eq_true, Bool.not_eq_true', Std.ExtTreeMap.contains_iff_mem]
  by_cases hdep : dep ∈ impacted
  · right
    rw [Std.ExtTreeMap.mem_iff_isSome_getElem?, Option.isSome_iff_ne_none]
    exact fun hnone => h ⟨hdep, hnone⟩
  · left
    rw [← Bool.not_eq_true, Std.ExtTreeMap.contains_iff_mem]
    exact hdep

theorem discover_new {current dep : String} {depth : Nat} {walk : Upstream}
    (hdep : dep ∈ impacted) (hnone : walk.distances[dep]? = none) :
    discover impacted current depth walk dep =
      { walk with
        distances := walk.distances.insert dep (depth + 1)
        parents := walk.parents.insert dep current
        queue := walk.queue ++ [dep] } := by
  rw [discover, if_neg]
  simp [hdep, Std.ExtTreeMap.contains_eq_isSome_getElem?, hnone]

/-- What the loop over the dependencies of `current` adds. -/
theorem foldl_discover (current : String) (depth : Nat) (deps : List String) (walk : Upstream) :
    ∃ news,
      (∀ dep, dep ∈ news ↔ dep ∈ deps ∧ dep ∈ impacted ∧ walk.distances[dep]? = none) ∧
      let result := deps.foldl (discover impacted current depth) walk
      result.queue = walk.queue ++ news ∧
      result.truncatedByDepth = walk.truncatedByDepth ∧
      (∀ dep ∈ news, result.distances[dep]? = some (depth + 1) ∧
        result.parents[dep]? = some current) ∧
      ∀ dep ∉ news, result.distances[dep]? = walk.distances[dep]? ∧
        result.parents[dep]? = walk.parents[dep]? := by
  induction deps generalizing walk with
  | nil => exact ⟨[], by simp, by simp⟩
  | cons dep deps ih =>
      by_cases hnew : dep ∈ impacted ∧ walk.distances[dep]? = none
      · obtain ⟨news, hnews, hqueue, hflag, hfound, hkept⟩ :=
          ih (discover impacted current depth walk dep)
        rw [discover_new hnew.1 hnew.2] at hnews hqueue hflag hfound hkept
        have hdep : dep ∉ news := by
          intro hmem
          have := ((hnews dep).mp hmem).2.2
          rw [Std.ExtTreeMap.getElem?_insert_self] at this
          cases this
        refine ⟨dep :: news, ?_, ?_⟩
        · intro other
          rw [List.mem_cons, hnews, List.mem_cons, Std.ExtTreeMap.getElem?_insert]
          by_cases heq : other = dep
          · subst heq
            simp [hnew.1, hnew.2]
          · have hne : ¬ compare dep other = .eq := by
              rw [compare_eq_iff_eq]
              exact fun h => heq h.symm
            simp [heq, hne]
        · rw [List.foldl_cons, discover_new hnew.1 hnew.2]
          refine ⟨?_, hflag, ?_, ?_⟩
          · rw [hqueue, List.append_assoc, List.singleton_append]
          · intro other hother
            rcases List.mem_cons.mp hother with rfl | hother
            · rw [(hkept other hdep).1, (hkept other hdep).2]
              exact ⟨Std.ExtTreeMap.getElem?_insert_self, Std.ExtTreeMap.getElem?_insert_self⟩
            · exact hfound other hother
          · intro other hother
            rw [List.mem_cons, not_or] at hother
            rw [(hkept other hother.2).1, (hkept other hother.2).2]
            have hne : ¬ compare dep other = .eq := by
              rw [compare_eq_iff_eq]
              exact fun h => hother.1 h.symm
            rw [Std.ExtTreeMap.getElem?_insert, if_neg hne, Std.ExtTreeMap.getElem?_insert,
              if_neg hne]
            exact ⟨rfl, rfl⟩
      · obtain ⟨news, hnews, hrest⟩ := ih walk
        refine ⟨news, ?_, ?_⟩
        · intro other
          rw [hnews, List.mem_cons]
          constructor
          · exact fun h => ⟨.inr h.1, h.2⟩
          · rintro ⟨rfl | hother, h⟩
            · exact absurd h hnew
            · exact ⟨hother, h⟩
        · rw [List.foldl_cons, discover_known hnew]
          exact hrest

/-- The rounds a walk can still take. -/
def budget (impacted : StringMap ImpactType) (walk : Upstream) : Nat :=
  (impacted.keys.filter (· ∉ walk.distances)).length + walk.queue.length

theorem budget_discover_le (current dep : String) (depth : Nat) (walk : Upstream) :
    budget impacted (discover impacted current depth walk dep) ≤ budget impacted walk := by
  by_cases hnew : dep ∈ impacted ∧ walk.distances[dep]? = none
  · rw [discover_new hnew.1 hnew.2, budget, budget, List.length_append, List.length_singleton]
    have hsub : impacted.keys.filter (· ∉ walk.distances.insert dep (depth + 1)) =
        (impacted.keys.filter (· ∉ walk.distances)).filter (· ≠ dep) := by
      rw [List.filter_filter]
      apply List.filter_congr
      intro key _
      have hkey : dep = key ↔ key = dep := ⟨Eq.symm, Eq.symm⟩
      simp [Std.ExtTreeMap.mem_insert, hkey]
    have hmem : dep ∈ impacted.keys.filter (· ∉ walk.distances) := by
      rw [List.mem_filter, Std.ExtTreeMap.mem_keys]
      refine ⟨hnew.1, ?_⟩
      simp [Std.ExtTreeMap.mem_iff_isSome_getElem?, hnew.2]
    have hlt : ((impacted.keys.filter (· ∉ walk.distances)).filter (· ≠ dep)).length <
        (impacted.keys.filter (· ∉ walk.distances)).length :=
      List.length_filter_lt_length_iff_exists.mpr ⟨dep, hmem, by simp⟩
    rw [hsub]
    omega
  · rw [discover_known hnew]

theorem budget_foldl_discover_le (current : String) (depth : Nat) (deps : List String)
    (walk : Upstream) :
    budget impacted (deps.foldl (discover impacted current depth) walk) ≤
      budget impacted walk := by
  induction deps generalizing walk with
  | nil => exact Nat.le_refl _
  | cons dep deps ih => exact (ih _).trans (budget_discover_le current dep depth walk)

/-- Only known labels have parents, and the parents are as many as the hops of any label. -/
structure Rooted (walk : Upstream) : Prop where
  known : ∀ label ∈ walk.parents, label ∈ walk.distances
  enough : ∀ (label : String) n, walk.distances[label]? = some n → n ≤ walk.parents.size

theorem Rooted.discover {walk : Upstream} (h : Rooted walk) {depth : Nat}
    (hdepth : depth ≤ walk.parents.size) (current dep : String) :
    Rooted (discover impacted current depth walk dep) ∧
      depth ≤ (BazelDiff.discover impacted current depth walk dep).parents.size := by
  by_cases hnew : dep ∈ impacted ∧ walk.distances[dep]? = none
  · rw [discover_new hnew.1 hnew.2]
    have hsize : (walk.parents.insert dep current).size = walk.parents.size + 1 := by
      rw [Std.ExtTreeMap.size_insert, if_neg]
      intro hmem
      have := Std.ExtTreeMap.mem_iff_isSome_getElem?.mp (h.known dep hmem)
      rw [hnew.2] at this
      cases this
    refine ⟨⟨?_, ?_⟩, ?_⟩
    · intro label hlabel
      rw [Std.ExtTreeMap.mem_insert] at hlabel ⊢
      exact hlabel.imp_right (h.known label)
    · intro label n hn
      dsimp only at hn ⊢
      rw [Std.ExtTreeMap.getElem?_insert] at hn
      rw [hsize]
      split at hn
      · cases hn
        omega
      · have := h.enough label n hn
        omega
    · dsimp only
      omega
  · rw [discover_known hnew]
    exact ⟨h, hdepth⟩

theorem Rooted.foldl_discover {walk : Upstream} (h : Rooted walk) {depth : Nat}
    (hdepth : depth ≤ walk.parents.size) (current : String) (deps : List String) :
    Rooted (deps.foldl (BazelDiff.discover impacted current depth) walk) := by
  induction deps generalizing walk with
  | nil => exact h
  | cons dep deps ih =>
      obtain ⟨hdep, hsize⟩ := @Rooted.discover impacted _ h _ hdepth current dep
      exact ih hdep hsize

/-! ## The whole walk -/

/-- The number of hops of a dependency path through impacted labels. -/
def HopsTo (depEdges : StringMap (List String)) (impacted : StringMap ImpactType)
    (target label : String) (n : Nat) : Prop :=
  ∃ path, ChainTo (Uses depEdges impacted) (· = label) target path ∧ path.length - 1 = n

theorem reaches_iff_hopsTo {target label : String} {n : Nat} :
    Reaches (Uses depEdges impacted) label target n ↔ HopsTo depEdges impacted target label n := by
  rw [Reaches, walkCost_iff_chain, HopsTo]
  simp only [chainCost_one]

/-- A label that is reachable, but only beyond a depth. -/
def Beyond (depEdges : StringMap (List String)) (impacted : StringMap ImpactType)
    (target : String) (depth : Nat) : Prop :=
  ∃ label n, IsLeast {k | HopsTo depEdges impacted target label k} n ∧ depth < n

/-- The state of a walk: a breadth-first search over impacted labels whose flag is raised
exactly for labels beyond the bound it has met. -/
structure Searching (depEdges : StringMap (List String)) (impacted : StringMap ImpactType)
    (target : String) (maxDepth : Option Nat) (walk : Upstream) : Prop where
  frontier : Frontier (Uses depEdges impacted) target maxDepth (fun label => walk.distances[label]?)
    (fun label => walk.parents[label]?) walk.queue
  rooted : Rooted walk
  confined : ∀ label ∈ walk.distances, label ∈ impacted
  raised : walk.truncatedByDepth = true →
    ∃ depth, maxDepth = some depth ∧ Beyond depEdges impacted target depth
  quiet : walk.truncatedByDepth = false → ∀ depth, maxDepth = some depth →
    ∀ label : String, walk.distances[label]? = some depth → label ∉ walk.queue →
    ∀ dep, Uses depEdges impacted label dep → ∃ n, walk.distances[dep]? = some n

theorem bound_reached_iff {maxDepth : Option Nat} {depth : Nat} :
    (maxDepth.any fun max => decide (max ≤ depth)) = true ↔ ¬ Expanded maxDepth depth := by
  rw [Option.any_eq_true, Expanded]
  push Not
  constructor
  · rintro ⟨d, hd, hle⟩
    exact ⟨d, hd, by simpa using hle⟩
  · rintro ⟨d, hd, hle⟩
    exact ⟨d, hd, by simpa using hle⟩

variable {target : String} {maxDepth : Option Nat}

theorem Searching.initial (htarget : target ∈ impacted) :
    Searching depEdges impacted target maxDepth
      { distances := (∅ : StringMap Nat).insert target 0
        parents := ∅
        queue := [target]
        truncatedByDepth := false } where
  frontier := by
    have hdist : (fun label : String => ((∅ : StringMap Nat).insert target 0)[label]?) =
        fun label => if label = target then some 0 else none := by
      funext label
      rw [Std.ExtTreeMap.getElem?_insert]
      by_cases heq : label = target
      · simp [heq]
      · have hne : ¬ compare target label = .eq := by
          rw [compare_eq_iff_eq]
          exact fun h => heq h.symm
        simp [heq, hne]
    have hparent : (fun label : String => (∅ : StringMap String)[label]?) = fun _ => none := by
      funext label
      simp
    simp only [hdist, hparent]
    exact Frontier.initial
  rooted := by
    constructor
    · intro label hlabel
      exact absurd hlabel Std.ExtTreeMap.not_mem_empty
    · intro label n hn
      dsimp only at hn
      rw [Std.ExtTreeMap.getElem?_insert] at hn
      split at hn
      · cases hn
        exact Nat.zero_le _
      · simp at hn
  confined label hlabel := by
    rcases Std.ExtTreeMap.mem_insert.mp hlabel with heq | hmem
    · rw [compare_eq_iff_eq] at heq
      exact heq ▸ htarget
    · exact absurd hmem Std.ExtTreeMap.not_mem_empty
  raised h := by cases h
  quiet _ depth hdepth label hlabel hqueue := by
    dsimp only at hlabel hqueue
    rw [Std.ExtTreeMap.getElem?_insert] at hlabel
    split at hlabel
    · next heq =>
        rw [compare_eq_iff_eq] at heq
        exact absurd (heq ▸ List.mem_cons_self) hqueue
    · simp at hlabel

/-- A label at the bound is left unexpanded, and the flag is raised if it hides something. -/
theorem Searching.skip {walk : Upstream} {current : String} {queue : List String}
    (h : Searching depEdges impacted target maxDepth { walk with queue := current :: queue })
    {depth : Nat} (hdepth : walk.distances[current]? = some depth)
    (hbound : ¬ Expanded maxDepth depth) :
    Searching depEdges impacted target maxDepth
      { walk with
        queue
        truncatedByDepth := walk.truncatedByDepth || (((depEdges[current]?).getD []).any fun dep =>
          impacted.contains dep && !walk.distances.contains dep) } := by
  obtain ⟨d, hd, hle⟩ : ∃ d, maxDepth = some d ∧ d ≤ depth := by
    simpa [Expanded] using hbound
  obtain rfl : d = depth := Nat.le_antisymm hle (h.frontier.bounded current depth d hdepth hd)
  have hcurrent : current ∈ impacted := h.confined current (mem_of_getElem? hdepth)
  refine ⟨h.frontier.skip hdepth hbound, ⟨h.rooted.known, h.rooted.enough⟩, h.confined, ?_, ?_⟩
  · intro hflag
    rcases Bool.or_eq_true _ _ |>.mp hflag with hflag | hflag
    · exact h.raised hflag
    · obtain ⟨dep, hdep, hhidden⟩ := List.any_eq_true.mp hflag
      rw [Bool.and_eq_true, Bool.not_eq_true', Std.ExtTreeMap.contains_iff_mem] at hhidden
      have huses : Uses depEdges impacted current dep :=
        ⟨hcurrent, List.mem_filter.mpr ⟨hdep, by simpa using hhidden.1⟩⟩
      have hwalk := (h.frontier.sound hdepth).snoc huses
      have hreach : ({k | Reaches (Uses depEdges impacted) dep target k} : Set Nat).Nonempty :=
        ⟨_, hwalk⟩
      refine ⟨d, hd, dep, sInf {k | Reaches (Uses depEdges impacted) dep target k}, ?_, ?_⟩
      · simp only [← reaches_iff_hopsTo]
        exact ⟨Nat.sInf_mem hreach, fun _ hn => Nat.sInf_le hn⟩
      · by_contra hnear
        have hsorted : ∀ label ∈ current :: queue, ∀ n, walk.distances[label]? = some n →
            d ≤ n := by
          intro label hlabel n hn
          rcases List.mem_cons.mp hlabel with rfl | hlabel
          · rw [hdepth] at hn
            cases hn
            exact Nat.le_refl _
          · exact (List.pairwise_cons.mp h.frontier.sorted).1 label hlabel d n hdepth hn
        have hwithin : ∀ d', maxDepth = some d' → d ≤ d' := by
          intro d' hd'
          rw [hd] at hd'
          cases hd'
          exact Nat.le_refl _
        have hleast : Reaches (Uses depEdges impacted) dep target
            (sInf {k | Reaches (Uses depEdges impacted) dep target k}) := Nat.sInf_mem hreach
        obtain ⟨m, hm, -⟩ := h.frontier.complete hsorted hwithin hleast h.frontier.origin
          (by omega)
        have hmem : dep ∈ walk.distances := mem_of_getElem? hm
        rw [← Std.ExtTreeMap.contains_iff_mem, hhidden.2] at hmem
        cases hmem
  · intro hflag depth' hdepth' label hlabel hout dep hdep
    obtain ⟨hquiet, hnone⟩ := Bool.or_eq_false_iff.mp hflag
    by_cases heq : label = current
    · subst heq
      have hdep' := List.mem_filter.mp hdep.2
      have hshown := List.any_eq_false.mp hnone dep hdep'.1
      have hknown : dep ∈ walk.distances := by
        by_contra hunknown
        apply hshown
        rw [← Std.ExtTreeMap.contains_iff_mem, Bool.not_eq_true] at hunknown
        rw [hunknown, hdep'.2]
        rfl
      exact Option.isSome_iff_exists.mp (Std.ExtTreeMap.mem_iff_isSome_getElem?.mp hknown)
    · apply h.quiet hquiet depth' hdepth' label hlabel _ dep hdep
      intro hmem
      rcases List.mem_cons.mp hmem with hsame | hmem
      · exact heq hsame
      · exact hout hmem

/-- A label within the bound is expanded. -/
theorem Searching.advance {walk : Upstream} {current : String} {queue : List String}
    (h : Searching depEdges impacted target maxDepth { walk with queue := current :: queue })
    {depth : Nat} (hdepth : walk.distances[current]? = some depth)
    (hbound : Expanded maxDepth depth) :
    Searching depEdges impacted target maxDepth
      (((depEdges[current]?).getD []).foldl (discover impacted current depth)
        { walk with queue }) := by
  have hcurrent : current ∈ impacted := h.confined current (mem_of_getElem? hdepth)
  obtain ⟨news, hnews, hqueue, hflag, hfound, hkept⟩ :=
    @foldl_discover impacted current depth ((depEdges[current]?).getD []) { walk with queue }
  have hrooted := @Rooted.foldl_discover impacted { walk with queue }
    ⟨h.rooted.known, h.rooted.enough⟩ depth (h.rooted.enough current depth hdepth) current
    ((depEdges[current]?).getD [])
  generalize ((depEdges[current]?).getD []).foldl (discover impacted current depth)
    { walk with queue } = result at hqueue hflag hfound hkept hrooted ⊢
  have hnews' : ∀ dep, dep ∈ news ↔
      Uses depEdges impacted current dep ∧ walk.distances[dep]? = none := by
    intro dep
    rw [hnews, Uses, impactedDeps, List.mem_filter, Std.ExtTreeMap.contains_iff_mem]
    simp [hcurrent, and_assoc]
  refine ⟨?_, hrooted, ?_, ?_, ?_⟩
  · rw [hqueue]
    exact h.frontier.advance hdepth hbound hnews' (fun dep _ hdep => (hfound dep hdep).1)
      (fun dep hdep => (hfound dep hdep).2) hkept
  · intro label hlabel
    by_cases hmem : label ∈ news
    · exact mem_of_mem_impactedDeps ((hnews' label).mp hmem).1.2
    · apply h.confined label
      rw [Std.ExtTreeMap.mem_iff_isSome_getElem?] at hlabel ⊢
      rw [(hkept label hmem).1] at hlabel
      exact hlabel
  · intro hraised
    exact h.raised (hflag ▸ hraised)
  · intro hquiet d hd label hlabel hout dep hdep
    have hout' : label ∉ queue ∧ label ∉ news := by
      rw [hqueue, List.mem_append, not_or] at hout
      exact hout
    have hold : walk.distances[label]? = some d := (hkept label hout'.2).1.symm.trans hlabel
    have hne : label ∉ current :: queue := by
      intro hmem
      rcases List.mem_cons.mp hmem with rfl | hmem
      · rw [hdepth] at hold
        cases hold
        exact Nat.lt_irrefl depth (hbound depth hd)
      · exact hout'.1 hmem
    obtain ⟨n, hn⟩ := h.quiet (hflag ▸ hquiet) d hd label hold hne dep hdep
    have hdepNew : dep ∉ news := by
      intro hmem
      have := ((hnews' dep).mp hmem).2
      dsimp only at hn
      rw [hn] at this
      cases this
    exact ⟨n, (hkept dep hdepNew).1.trans hn⟩

/-- One round keeps the state of the walk and uses up one of its rounds. -/
theorem Searching.visit {walk : Upstream} {current : String} {queue : List String}
    (h : Searching depEdges impacted target maxDepth { walk with queue := current :: queue }) :
    ∃ next, visitUpstream depEdges impacted maxDepth { walk with queue } current = .ok next ∧
      Searching depEdges impacted target maxDepth next ∧
      budget impacted next < budget impacted { walk with queue := current :: queue } := by
  obtain ⟨depth, hdepth⟩ := h.frontier.queued current List.mem_cons_self
  rw [visitUpstream, index_eq_ok hdepth]
  by_cases hbound : Expanded maxDepth depth
  · have hany : ¬ (maxDepth.any fun max => decide (max ≤ depth)) = true :=
      fun hreached => bound_reached_iff.mp hreached hbound
    refine ⟨_, if_neg hany, h.advance hdepth hbound, ?_⟩
    have hle := @budget_foldl_discover_le impacted current depth ((depEdges[current]?).getD [])
      { walk with queue }
    simp only [budget, List.length_cons] at hle ⊢
    omega
  · refine ⟨_, if_pos (bound_reached_iff.mpr hbound), h.skip hdepth hbound, ?_⟩
    simp only [budget, List.length_cons]
    omega

theorem walkLoop_searching (fuel : Nat) {walk : Upstream}
    (h : Searching depEdges impacted target maxDepth walk) (hfuel : budget impacted walk ≤ fuel) :
    ∃ result, walkLoop depEdges impacted maxDepth fuel walk = .ok result ∧
      Searching depEdges impacted target maxDepth result ∧ result.queue = [] := by
  induction fuel generalizing walk with
  | zero =>
      cases hqueue : walk.queue with
      | nil => exact ⟨walk, by rw [walkLoop, hqueue], h, hqueue⟩
      | cons current queue =>
          rw [budget, hqueue, List.length_cons] at hfuel
          omega
  | succ fuel ih =>
      cases hqueue : walk.queue with
      | nil => exact ⟨walk, by rw [walkLoop, hqueue], h, hqueue⟩
      | cons current queue =>
          have hwalk : walk = { walk with queue := current :: queue } := by
            rw [← hqueue]
          rw [hwalk] at h hfuel
          obtain ⟨next, hnext, hsearching, hless⟩ := h.visit
          obtain ⟨result, hresult, hrest⟩ := ih hsearching (by omega)
          refine ⟨result, ?_, hrest⟩
          rw [walkLoop]
          simp only [hqueue, hnext]
          exact hresult

/-- From an impacted target the walk runs to the end of its queue. -/
theorem walkUpstream_searching (htarget : target ∈ impacted) :
    ∃ walk, walkUpstream depEdges impacted target maxDepth = .ok walk ∧
      Searching depEdges impacted target maxDepth walk ∧ walk.queue = [] := by
  apply walkLoop_searching _ (Searching.initial htarget)
  rw [budget, List.length_singleton]
  have hle := List.length_filter_le (fun label =>
    decide (label ∉ (∅ : StringMap Nat).insert target 0)) impacted.keys
  rw [Std.ExtTreeMap.length_keys] at hle
  exact Nat.add_le_add_right hle 1

end Walk

end BazelDiff
