/-
# Module cycles

Modules may depend on one another in a circle, and a target graph must not. Before module
edges become target edges, a depth-first search drops every edge that leads back to a module
it is still inside of.
-/

import BazelDiff.Lib.FinishingOrder
import BazelDiff.Lib.Outcome
import BazelDiff.Options
import Mathlib.Data.Finset.Card

namespace BazelDiff

open FinishingOrder Outcome Relation

/-- What the search carries along: the modules it is done with, those it is inside of, and the
edges it has kept. -/
structure ModuleWalk where
  visited : StringSet := ∅
  path : StringSet := ∅
  result : StringMap StringSet := ∅

/-- One dependency of a module the search is inside of, with the ones it keeps of it. -/
def visitDependency (visit : String → ModuleWalk → Result ModuleWalk)
    (state : ModuleWalk × StringSet) (dependency : String) : Result (ModuleWalk × StringSet) := do
  let (walk, kept) := state
  if walk.path.contains dependency then return (walk, kept)
  let kept := kept.insert dependency
  let walk ← visit dependency walk
  return (walk, kept)

/-- The dependencies of a module, which has none when it is no key. -/
def dependenciesOf (edges : StringMap StringSet) (node : String) : List String :=
  ((edges[node]?).map (·.toList)).getD []

/-- Visit a module, with a bound on how deep the search may get. -/
def visitModule (edges : StringMap StringSet) : Nat → String → ModuleWalk → Result ModuleWalk
  | 0, _, _ => .error .outOfFuel
  | fuel + 1, node, walk =>
      if walk.visited.contains node then return walk
      else do
        let inside := { walk with path := walk.path.insert node }
        let (walk, kept) ← (dependenciesOf edges node).foldlM
          (visitDependency (visitModule edges fuel)) (inside, ∅)
        return {
          visited := walk.visited.insert node
          path := walk.path.erase node
          result := walk.result.insert node kept }

/-- Drop the edges that close a cycle. Every module on the way down is a key, except the last. -/
def breakModuleCycles (edges : StringMap StringSet) : Result (StringMap StringSet) := do
  let walk ← edges.keys.foldlM
    (fun walk node => visitModule edges (edges.keys.length + 1) node { walk with path := ∅ }) {}
  return walk.result

/-! ## What the search keeps -/

/-- An edge of a map of edges. -/
def DependsOn (edges : StringMap StringSet) (module dependency : String) : Prop :=
  ∃ dependencies, edges[module]? = some dependencies ∧ dependency ∈ dependencies

variable {edges : StringMap StringSet}

theorem mem_dependenciesOf {module dependency : String} :
    dependency ∈ dependenciesOf edges module ↔ DependsOn edges module dependency := by
  rw [dependenciesOf, DependsOn]
  cases edges[module]? with
  | none => simp
  | some dependencies =>
      show dependency ∈ dependencies.toList ↔ _
      rw [Std.ExtTreeSet.mem_toList]
      simp

theorem dependsOn_insert {result : StringMap StringSet} {node : String} {kept : StringSet}
    {module dependency : String} :
    DependsOn (result.insert node kept) module dependency ↔
      module = node ∧ dependency ∈ kept ∨ module ≠ node ∧ DependsOn result module dependency := by
  rw [DependsOn, Std.ExtTreeMap.getElem?_insert]
  by_cases h : module = node
  · subst h
    rw [if_pos Std.ReflCmp.compare_self]
    simp
  · have hcompare : compare node module ≠ .eq := fun heq =>
      h (Std.LawfulEqCmp.eq_of_compare heq).symm
    rw [if_neg hcompare]
    simp [h, DependsOn]

/-- The keys the search is not inside of. -/
def outside (edges : StringMap StringSet) (path : StringSet) : Finset String :=
  edges.keys.toFinset.filter (· ∉ path)

theorem card_outside_le (path : StringSet) : (outside edges path).card ≤ edges.keys.length :=
  (Finset.card_filter_le _ _).trans (List.toFinset_card_le _)

/-- Getting inside of a module with dependencies leaves fewer keys outside. -/
theorem card_outside_insert_lt {path : StringSet} {node dependency : String} (hnode : node ∉ path)
    (hdependency : DependsOn edges node dependency) :
    (outside edges (path.insert node)).card < (outside edges path).card := by
  obtain ⟨dependencies, hkey, -⟩ := hdependency
  have hmem : node ∈ edges.keys :=
    Std.ExtTreeMap.mem_keys.mpr (Std.ExtTreeMap.mem_iff_isSome_getElem?.mpr (by simp [hkey]))
  apply card_outside_lt _ (List.mem_toFinset.mpr hmem) hnode
  · exact fun hfresh => hfresh Std.ExtTreeSet.mem_insert_self
  · intro module hmodule hold
    exact hmodule (Std.ExtTreeSet.mem_insert.mpr (Or.inr hold))

/-- The state a search may be in. -/
def Sound (edges : StringMap StringSet) (walk : ModuleWalk) : Prop :=
  Finished (DependsOn edges) (· ∈ walk.visited) (DependsOn walk.result)

theorem Sound.initial : Sound edges {} := by
  have hvisited : (fun module : String => module ∈ ({} : ModuleWalk).visited) =
      fun _ => False := by
    funext module
    simp
  have hkept : DependsOn ({} : ModuleWalk).result = fun _ _ => False := by
    funext module dependency
    simp [DependsOn]
  rw [Sound, hvisited, hkept]
  exact Finished.initial

/-- What visiting some modules changes. -/
structure Advanced (edges : StringMap StringSet) (before after : ModuleWalk) : Prop where
  sound : Sound edges after
  path_eq : after.path = before.path
  visited : ∀ module ∈ before.visited, module ∈ after.visited
  outside : ∀ module ∈ after.visited, module ∈ before.visited ∨ module ∉ before.path

theorem Advanced.refl {walk : ModuleWalk} (h : Sound edges walk) : Advanced edges walk walk where
  sound := h
  path_eq := rfl
  visited := fun _ h => h
  outside := fun _ h => Or.inl h

theorem Advanced.trans {before middle after : ModuleWalk} (h : Advanced edges before middle)
    (h' : Advanced edges middle after) : Advanced edges before after where
  sound := h'.sound
  path_eq := h'.path_eq.trans h.path_eq
  visited := fun module hmem => h'.visited module (h.visited module hmem)
  outside := by
    intro module hmem
    rcases h'.outside module hmem with hmiddle | hpath
    · exact h.outside module hmiddle
    · exact Or.inr (h.path_eq ▸ hpath)

/-- Leaving a module whose dependencies have been looked at finishes it. -/
theorem Sound.leave {walk : ModuleWalk} {node : String} {kept : StringSet}
    (h : Sound edges walk) (hnode : node ∉ walk.visited)
    (hstep : ∀ dependency ∈ kept, DependsOn edges node dependency)
    (hvisited : ∀ dependency ∈ kept, dependency ∈ walk.visited)
    (hback : ∀ dependency, DependsOn edges node dependency → dependency ∉ kept →
      ReflTransGen (DependsOn edges) dependency node) (path : StringSet) :
    Sound edges { visited := walk.visited.insert node, path
                  result := walk.result.insert node kept } := by
  have hfinish := h.finish hnode hstep hvisited hback
  have hfresh : ∀ module dependency, DependsOn walk.result module dependency → module ≠ node :=
    fun module dependency hkept heq => hnode (heq ▸ (h.closed module dependency hkept).1)
  have hvisitedIff : (fun module => module ∈ walk.visited.insert node) =
      fun module => module = node ∨ module ∈ walk.visited := by
    funext module
    rw [Std.ExtTreeSet.mem_insert, Std.compare_eq_iff_eq, @eq_comm _ node]
  have hkeptIff : DependsOn (walk.result.insert node kept) =
      fun module dependency => module = node ∧ dependency ∈ kept ∨
        DependsOn walk.result module dependency := by
    funext module dependency
    rw [dependsOn_insert]
    apply propext
    apply or_congr Iff.rfl
    exact ⟨And.right, fun hkept => ⟨hfresh module dependency hkept, hkept⟩⟩
  rw [Sound, hvisitedIff, hkeptIff]
  exact hfinish

/-- What the dependencies a module has been through so far leave behind. -/
structure Passed (edges : StringMap StringSet) (inside : ModuleWalk) (done : List String)
    (state : ModuleWalk × StringSet) : Prop where
  advanced : Advanced edges inside state.1
  kept : ∀ dependency, dependency ∈ state.2 ↔ dependency ∈ done ∧ dependency ∉ inside.path
  visited : ∀ dependency ∈ state.2, dependency ∈ state.1.visited

/-- One more dependency, if visiting it goes well. -/
theorem visitDependency_meets {visit : String → ModuleWalk → Result ModuleWalk}
    {inside : ModuleWalk} {done : List String} {dependency : String}
    (hvisit : dependency ∉ inside.path → ∀ walk, Advanced edges inside walk →
      Meets (fun _ => False) (fun after => Advanced edges walk after ∧ dependency ∈ after.visited)
        (visit dependency walk))
    {state : ModuleWalk × StringSet} (hstate : Passed edges inside done state) :
    Meets (fun _ => False) (Passed edges inside (done ++ [dependency]))
      (visitDependency visit state dependency) := by
  obtain ⟨walk, kept⟩ := state
  rw [visitDependency]
  by_cases hpath : dependency ∈ inside.path
  · have hcontains : walk.path.contains dependency = true :=
      Std.ExtTreeSet.contains_iff_mem.mpr (hstate.advanced.path_eq ▸ hpath)
    rw [if_pos hcontains]
    refine .ok ⟨hstate.advanced, fun other => ?_, hstate.visited⟩
    rw [hstate.kept other, List.mem_append, List.mem_singleton]
    constructor
    · exact fun h => ⟨Or.inl h.1, h.2⟩
    · rintro ⟨hdone | rfl, hout⟩
      · exact ⟨hdone, hout⟩
      · exact absurd hpath hout
  · have hcontains : ¬ walk.path.contains dependency = true := fun h =>
      hpath (hstate.advanced.path_eq ▸ Std.ExtTreeSet.contains_iff_mem.mp h)
    rw [if_neg hcontains]
    apply Meets.bind (hvisit hpath walk hstate.advanced)
    rintro after ⟨hafter, hdependency⟩
    refine .ok ⟨hstate.advanced.trans hafter, fun other => ?_, fun other hother => ?_⟩
    · show other ∈ kept.insert dependency ↔ _
      rw [Std.ExtTreeSet.mem_insert, Std.compare_eq_iff_eq, hstate.kept other, List.mem_append,
        List.mem_singleton]
      constructor
      · rintro (rfl | h)
        · exact ⟨Or.inr rfl, hpath⟩
        · exact ⟨Or.inl h.1, h.2⟩
      · rintro ⟨hdone | rfl, hout⟩
        · exact Or.inr ⟨hdone, hout⟩
        · exact Or.inl rfl
    · rcases Std.ExtTreeSet.mem_insert.mp hother with heq | hmem
      · exact Std.compare_eq_iff_eq.mp heq ▸ hdependency
      · exact hafter.visited other (hstate.visited other hmem)

/-- Leaving a module after all its dependencies brings the path back. -/
theorem Passed.leave {walk after : ModuleWalk} {node : String} {kept : StringSet}
    (h : Passed edges { walk with path := walk.path.insert node } (dependenciesOf edges node)
      (after, kept)) (hvisited : node ∉ walk.visited) (hnode : node ∉ walk.path)
    (hinside : ∀ module ∈ walk.path.insert node, ReflTransGen (DependsOn edges) module node) :
    Advanced edges walk
      { visited := after.visited.insert node
        path := after.path.erase node
        result := after.result.insert node kept } where
  sound := by
    have hfresh : node ∉ after.visited := fun hmem =>
      (h.advanced.outside node hmem).elim hvisited fun hout =>
        hout Std.ExtTreeSet.mem_insert_self
    apply h.advanced.sound.leave hfresh _ h.visited
    · intro dependency hstep hout
      by_cases hmem : dependency ∈ walk.path.insert node
      · exact hinside dependency hmem
      · exact absurd ((h.kept dependency).mpr ⟨mem_dependenciesOf.mpr hstep, hmem⟩) hout
    · intro dependency hmem
      exact mem_dependenciesOf.mp ((h.kept dependency).mp hmem).1
  path_eq := by
    show after.path.erase node = walk.path
    rw [h.advanced.path_eq]
    apply Std.ExtTreeSet.ext_mem
    intro module
    rw [Std.ExtTreeSet.mem_erase, Std.ExtTreeSet.mem_insert]
    constructor
    · exact fun hmem => hmem.2.resolve_left fun heq => hmem.1 heq
    · intro hmem
      refine ⟨fun heq => hnode ?_, Or.inr hmem⟩
      rwa [Std.compare_eq_iff_eq.mp heq]
  visited := fun module hmem =>
    Std.ExtTreeSet.mem_insert.mpr (Or.inr (h.advanced.visited module hmem))
  outside := by
    intro module hmem
    rcases Std.ExtTreeSet.mem_insert.mp hmem with heq | hmem
    · exact Or.inr (Std.compare_eq_iff_eq.mp heq ▸ hnode)
    · apply (h.advanced.outside module hmem).imp_right
      exact fun hout hin => hout (Std.ExtTreeSet.mem_insert.mpr (Or.inr hin))

/-- The search comes back from a module it has entered, and has finished it. Everything it is
inside of leads to the module; the bound is never reached. -/
theorem visitModule_meets {fuel : Nat} {node : String} {walk : ModuleWalk}
    (hsound : Sound edges walk) (hnode : node ∉ walk.path)
    (hpath : ∀ module ∈ walk.path, ReflTransGen (DependsOn edges) module node)
    (hfuel : (outside edges walk.path).card < fuel) :
    Meets (fun _ => False) (fun after => Advanced edges walk after ∧ node ∈ after.visited)
      (visitModule edges fuel node walk) := by
  induction fuel generalizing node walk with
  | zero => exact absurd hfuel (Nat.not_lt_zero _)
  | succ fuel ih =>
      rw [visitModule]
      by_cases hvisited : node ∈ walk.visited
      · rw [if_pos (Std.ExtTreeSet.contains_iff_mem.mpr hvisited)]
        exact .ok ⟨.refl hsound, hvisited⟩
      · rw [if_neg fun h => hvisited (Std.ExtTreeSet.contains_iff_mem.mp h)]
        have hinside : ∀ module ∈ walk.path.insert node,
            ReflTransGen (DependsOn edges) module node := by
          intro module hmem
          rcases Std.ExtTreeSet.mem_insert.mp hmem with heq | hmem
          · rw [Std.compare_eq_iff_eq.mp heq]
          · exact hpath module hmem
        have hloop : Meets (fun _ => False)
            (Passed edges { walk with path := walk.path.insert node } (dependenciesOf edges node))
            ((dependenciesOf edges node).foldlM (visitDependency (visitModule edges fuel))
              ({ walk with path := walk.path.insert node }, ∅)) := by
          apply Meets.foldlM_done
          · intro done dependency later hitems state hstate
            have hdependency : DependsOn edges node dependency := by
              rw [← mem_dependenciesOf, hitems]
              exact List.mem_append_right _ List.mem_cons_self
            apply visitDependency_meets _ hstate
            intro hout next hnext
            have hroom := card_outside_insert_lt hnode hdependency
            apply ih hnext.sound (hnext.path_eq ▸ hout)
            · rw [hnext.path_eq]
              exact fun module hmem => (hinside module hmem).tail hdependency
            · rw [hnext.path_eq]
              exact hroom.trans_le (Nat.le_of_lt_succ hfuel)
          · exact ⟨.refl hsound, fun _ => by simp, fun _ h => by simp at h⟩
        apply hloop.bind
        rintro ⟨after, kept⟩ hpassed
        exact .ok ⟨hpassed.leave hvisited hnode hinside, Std.ExtTreeSet.mem_insert_self⟩

/-- **Breaking cycles leaves a graph without cycles, and drops edges that close one and no
others.** -/
theorem break_module_cycles_correct (edges : StringMap StringSet) :
    ∃ result, breakModuleCycles edges = .ok result ∧
      (∀ module, ¬ TransGen (DependsOn result) module module) ∧
      (∀ module dependency, DependsOn result module dependency →
        DependsOn edges module dependency) ∧
      (∀ module dependency, DependsOn edges module dependency →
        ¬ DependsOn result module dependency →
        ReflTransGen (DependsOn edges) dependency module) ∧
      ((∀ module, ¬ TransGen (DependsOn edges) module module) →
        ∀ module dependency, DependsOn edges module dependency →
          DependsOn result module dependency) := by
  have hloop : Meets (fun _ => False)
      (fun walk : ModuleWalk => Sound edges walk ∧ ∀ node ∈ edges.keys, node ∈ walk.visited)
      (edges.keys.foldlM (fun walk node =>
        visitModule edges (edges.keys.length + 1) node { walk with path := ∅ }) {}) := by
    apply @Meets.foldlM_done _ _ _ _
      (fun done walk => Sound edges walk ∧ ∀ node ∈ done, node ∈ walk.visited)
    · rintro done node later - walk ⟨hsound, hdone⟩
      apply (@visitModule_meets edges _ node { walk with path := ∅ } hsound (by simp) (by simp)
        (Nat.lt_succ_of_le (card_outside_le ∅))).mono
      rintro after ⟨hadvanced, hnode⟩
      refine ⟨hadvanced.sound, fun other hother => ?_⟩
      rcases List.mem_append.mp hother with hbefore | hlast
      · exact hadvanced.visited other (hdone other hbefore)
      · exact List.mem_singleton.mp hlast ▸ hnode
    · exact ⟨.initial, fun _ h => absurd h List.not_mem_nil⟩
  obtain ⟨walk, hrun, hsound, hkeys⟩ := hloop.exists_ok fun _ h => h
  have hvisited : ∀ module dependency, DependsOn edges module dependency →
      module ∈ walk.visited := by
    rintro module dependency ⟨dependencies, hkey, -⟩
    apply hkeys
    exact Std.ExtTreeMap.mem_keys.mpr
      (Std.ExtTreeMap.mem_iff_isSome_getElem?.mpr (by simp [hkey]))
  refine ⟨walk.result, ?_, hsound.acyclic, hsound.subset, ?_, ?_⟩
  · rw [breakModuleCycles, hrun]
    rfl
  · exact fun module dependency hedge hnot =>
      hsound.back module dependency (hvisited module dependency hedge) hedge hnot
  · exact fun hacyclic module dependency hedge =>
      hsound.complete hacyclic (hvisited module dependency hedge) hedge

/-- The map of one edge. -/
def singleEdge (module dependency : String) : StringMap StringSet :=
  (∅ : StringMap StringSet).insert module ((∅ : StringSet).insert dependency)

theorem dependsOn_singleEdge {first second module dependency : String} :
    DependsOn (singleEdge first second) module dependency ↔
      module = first ∧ dependency = second := by
  rw [singleEdge, dependsOn_insert, Std.ExtTreeSet.mem_insert, Std.compare_eq_iff_eq,
    @eq_comm _ second]
  simp [DependsOn]

/-- Two modules without a cycle keep their edge. -/
theorem break_module_cycles_correct_singleEdge :
    ∃ result, breakModuleCycles (singleEdge "a" "b") = .ok result ∧ DependsOn result "a" "b" := by
  obtain ⟨result, hrun, -, -, -, hcomplete⟩ := break_module_cycles_correct (singleEdge "a" "b")
  refine ⟨result, hrun, hcomplete ?_ "a" "b" (dependsOn_singleEdge.mpr ⟨rfl, rfl⟩)⟩
  intro module hcycle
  obtain ⟨_, hfirst, -⟩ := TransGen.head'_iff.mp hcycle
  obtain ⟨_, -, hlast⟩ := TransGen.tail'_iff.mp hcycle
  have hsame := (dependsOn_singleEdge.mp hfirst).1.symm.trans (dependsOn_singleEdge.mp hlast).2
  exact absurd hsame (by decide)

/-- Of two modules in a circle the one that comes first keeps its edge. -/
example :
    (breakModuleCycles ((singleEdge "a" "b").insert "b" ((∅ : StringSet).insert "a"))).map
        (fun result => result.toList.map fun entry => (entry.1, entry.2.toList)) =
      .ok [("a", ["b"]), ("b", [])] := by
  rfl

end BazelDiff
