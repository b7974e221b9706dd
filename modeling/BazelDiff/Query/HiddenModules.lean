/-
# Modules the root cannot see

A module the root module has no name for is asked about by the name Bazel is expected to give its
repository. Before such a name is looked up in the catalog of all repositories, every occurrence
of a module in the module graph is resolved the way Bazel does: by the name its dependent has for
it, in the mapping of the dependent's repository. Only when they all agree are the names relied
on.
-/

import BazelDiff.Lib.JsonTree
import BazelDiff.Partial.Tree

namespace BazelDiff

/-! ## The check -/

/-- The names a module has for repositories. -/
abbrev RepoMapping := StringMap String

section Walk

variable (mappings : StringMap RepoMapping) (hidden : StringMap String)

/-- An expected name that was found, once it was compared. -/
def checkHidden (key canonical : String) (seen : StringSet) : Option StringSet :=
  match hidden[key]? with
  | none => some seen
  | some expected => if expected ≠ canonical then none else some (seen.insert key)

/-- Whether the dependencies of a module are listed with it. -/
def isExpanded (module : Json) : Bool :=
  (module.children "dependencies").any (!·.isEmpty)

/-- One dependency of a module, and the walk below it. -/
def visitHidden (walk : RepoMapping → StringSet → Option StringSet) (parent : RepoMapping)
    (child : Json) (seen : StringSet) : Option StringSet := do
  let key ← child.text "key"
  let canonical ← parent[← child.text "apparentName"]?
  let seen ← checkHidden hidden key canonical seen
  if isExpanded child then walk (← mappings[canonical]?) seen else return seen

/-- The walk over the module graph, with the hidden modules seen. -/
def walkHidden (node : Json) (parent : RepoMapping) (seen : StringSet) : Option StringSet :=
  match _h : node.children "dependencies" with
  | none => none
  | some children =>
      children.attach.foldlM
        (fun seen child =>
          visitHidden mappings hidden (fun parent seen => walkHidden child.1 parent seen) parent
            child.1 seen)
        seen
termination_by node
decreasing_by exact Json.sizeOf_lt_of_mem_children _h child.2

/-- Whether the expected names are those Bazel gives. The module graph and the mapping of the root
are there if they could be read. -/
def verifiedHiddenModules (graph : Option Json) (rootMapping : Option RepoMapping) : Bool :=
  if hidden.isEmpty || mappings.isEmpty then false
  else
    match graph, rootMapping with
    | some graph, some root =>
        (walkHidden mappings hidden graph root ∅).any fun seen => seen.size = hidden.size
    | _, _ => false

end Walk

/-! ## What is verified -/

/-- A dependency, under the key it has in the graph, resolves to a repository. -/
structure ResolvesTo (parent : RepoMapping) (child : Json) (key canonical : String) : Prop where
  key : child.text "key" = some key
  name : ∃ apparent, child.text "apparentName" = some apparent ∧ parent[apparent]? = some canonical

section Verified

variable (mappings : StringMap RepoMapping) (hidden : StringMap String)

/-- The modules the graph expands, each with the mapping of its repository. -/
inductive Visited (start : Json) (mapping : RepoMapping) : Json → RepoMapping → Prop
  | start : Visited start mapping start mapping
  | child {node child : Json} {parent next : RepoMapping} {children : List Json}
      {key canonical : String} (h : Visited start mapping node parent)
      (hchildren : node.children "dependencies" = some children) (hmem : child ∈ children)
      (hresolves : ResolvesTo parent child key canonical) (hexpanded : isExpanded child = true)
      (hnext : mappings[canonical]? = some next) : Visited start mapping child next

/-- Every dependency of a module resolves: to the expected repository, if there is one, and to one
whose mapping is known, if it has dependencies of its own. -/
def Agrees (node : Json) (parent : RepoMapping) : Prop :=
  ∃ children, node.children "dependencies" = some children ∧ ∀ child ∈ children,
    ∃ key canonical, ResolvesTo parent child key canonical ∧
      (∀ expected, hidden[key]? = some expected → expected = canonical) ∧
      (isExpanded child = true → ∃ next, mappings[canonical]? = some next)

/-- A dependency with the key. -/
def DependsOnKey (node : Json) (key : String) : Prop :=
  ∃ children, node.children "dependencies" = some children ∧
    ∃ child ∈ children, child.text "key" = some key

end Verified

section Spec

variable {mappings : StringMap RepoMapping} {hidden : StringMap String}

theorem ResolvesTo.unique {parent : RepoMapping} {child : Json} {key key' canonical canonical' : String}
    (h : ResolvesTo parent child key canonical) (h' : ResolvesTo parent child key' canonical') :
    key = key' ∧ canonical = canonical' := by
  obtain ⟨apparent, hname, hcanonical⟩ := h.name
  obtain ⟨apparent', hname', hcanonical'⟩ := h'.name
  have hkey := h.key.symm.trans h'.key
  cases hkey
  have hsame := hname.symm.trans hname'
  cases hsame
  have hend := hcanonical.symm.trans hcanonical'
  cases hend
  exact ⟨rfl, rfl⟩

theorem checkHidden_eq_some {key canonical : String} {seen seen' : StringSet}
    (h : checkHidden hidden key canonical seen = some seen') :
    (∀ expected, hidden[key]? = some expected → expected = canonical) ∧
      ∀ k, k ∈ seen' ↔ k ∈ seen ∨ k = key ∧ k ∈ hidden := by
  rw [checkHidden] at h
  cases hexpected : hidden[key]? with
  | none =>
      rw [hexpected] at h
      cases h
      refine ⟨fun _ hsome => (by cases hsome), fun k => ?_⟩
      constructor
      · exact Or.inl
      · rintro (hk | ⟨rfl, hk⟩)
        · exact hk
        · rw [Std.ExtTreeMap.mem_iff_isSome_getElem?, hexpected] at hk
          cases hk
  | some expected =>
      rw [hexpected] at h
      dsimp only at h
      split_ifs at h with hne
      cases h
      rw [not_not] at hne
      have hkey : key ∈ hidden := by
        rw [Std.ExtTreeMap.mem_iff_isSome_getElem?, hexpected]
        rfl
      refine ⟨fun _ hsome => by cases hsome; exact hne, fun k => ?_⟩
      rw [Std.ExtTreeSet.mem_insert, Std.LawfulEqOrd.compare_eq_iff_eq]
      constructor
      · rintro (rfl | hk)
        · exact Or.inr ⟨rfl, hkey⟩
        · exact Or.inl hk
      · rintro (hk | ⟨rfl, -⟩)
        · exact Or.inr hk
        · exact Or.inl rfl

theorem exists_checkHidden {key canonical : String}
    (h : ∀ expected, hidden[key]? = some expected → expected = canonical) (seen : StringSet) :
    ∃ seen', checkHidden hidden key canonical seen = some seen' := by
  rw [checkHidden]
  cases hexpected : hidden[key]? with
  | none => exact ⟨seen, rfl⟩
  | some expected => exact ⟨_, if_neg (not_not.mpr (h expected hexpected))⟩

/-- What is visited from a child is visited from its parent. -/
theorem Visited.of_child {node child : Json} {parent next : RepoMapping} {children : List Json}
    {key canonical : String} (hchildren : node.children "dependencies" = some children)
    (hmem : child ∈ children) (hresolves : ResolvesTo parent child key canonical)
    (hexpanded : isExpanded child = true) (hnext : mappings[canonical]? = some next)
    {n : Json} {m : RepoMapping} (h : Visited mappings child next n m) :
    Visited mappings node parent n m := by
  induction h with
  | start => exact .child .start hchildren hmem hresolves hexpanded hnext
  | child _ hchildren' hmem' hresolves' hexpanded' hnext' ih =>
      exact .child ih hchildren' hmem' hresolves' hexpanded' hnext'

/-- What is visited is the start, or is visited from one of its children. -/
theorem Visited.cases_start {node : Json} {parent : RepoMapping} {n : Json} {m : RepoMapping}
    (h : Visited mappings node parent n m) :
    (n = node ∧ m = parent) ∨
      ∃ children child key canonical next, node.children "dependencies" = some children ∧
        child ∈ children ∧ ResolvesTo parent child key canonical ∧ isExpanded child = true ∧
        mappings[canonical]? = some next ∧ Visited mappings child next n m := by
  induction h with
  | start => exact Or.inl ⟨rfl, rfl⟩
  | @child n' child' m' next' children' key' canonical' _ hchildren hmem hresolves hexpanded hnext ih =>
      right
      rcases ih with ⟨rfl, rfl⟩ | ⟨children, child, key, canonical, next, h1, h2, h3, h4, h5, h6⟩
      · exact ⟨children', child', key', canonical', next', hchildren, hmem, hresolves, hexpanded,
          hnext, .start⟩
      · exact ⟨children, child, key, canonical, next, h1, h2, h3, h4, h5,
          .child h6 hchildren hmem hresolves hexpanded hnext⟩

/-- What is visited from a module is visited from its parent, if that leads to it. -/
theorem visitHidden_eq_some {walk : RepoMapping → StringSet → Option StringSet}
    {parent : RepoMapping} {child : Json} {seen seen' : StringSet} :
    visitHidden mappings hidden walk parent child seen = some seen' ↔
      ∃ key canonical checked, ResolvesTo parent child key canonical ∧
        checkHidden hidden key canonical seen = some checked ∧
        (isExpanded child = true ∧
            (∃ next, mappings[canonical]? = some next ∧ walk next checked = some seen') ∨
          isExpanded child = false ∧ checked = seen') := by
  rw [visitHidden]
  simp only [Option.bind_eq_bind, Option.bind_eq_some_iff]
  constructor
  · rintro ⟨key, hkey, apparent, hname, canonical, hcanonical, checked, hchecked, hend⟩
    refine ⟨key, canonical, checked, ⟨hkey, apparent, hname, hcanonical⟩, hchecked, ?_⟩
    cases hexpanded : isExpanded child with
    | true =>
        rw [hexpanded, if_pos rfl] at hend
        exact Or.inl ⟨rfl, Option.bind_eq_some_iff.mp hend⟩
    | false =>
        rw [hexpanded, if_neg Bool.false_ne_true] at hend
        exact Or.inr ⟨rfl, Option.some.inj hend⟩
  · rintro ⟨key, canonical, checked, ⟨hkey, apparent, hname, hcanonical⟩, hchecked, hend⟩
    refine ⟨key, hkey, apparent, hname, canonical, hcanonical, checked, hchecked, ?_⟩
    rcases hend with ⟨hexpanded, hnext⟩ | ⟨hexpanded, rfl⟩
    · rw [hexpanded, if_pos rfl]
      exact Option.bind_eq_some_iff.mpr hnext
    · rw [hexpanded, if_neg Bool.false_ne_true]
      rfl

/-- The walk of a module with one dependency. -/
theorem walkHidden_singleton {node child : Json}
    (hchildren : node.children "dependencies" = some [child]) (parent : RepoMapping)
    (seen : StringSet) :
    walkHidden mappings hidden node parent seen =
      visitHidden mappings hidden
        (fun parent seen => walkHidden mappings hidden child parent seen) parent child seen := by
  rw [walkHidden]
  split
  case h_1 hnone =>
      rw [hchildren] at hnone
      cases hnone
  case h_2 children hsome =>
      cases hchildren.symm.trans hsome
      rw [List.attach_cons, List.foldlM_cons]
      cases visitHidden mappings hidden _ parent child seen <;> rfl

/-- A dependency with which the walk goes on. -/
def Passes (mappings : StringMap RepoMapping) (hidden : StringMap String) (parent : RepoMapping)
    (child : Json) : Prop :=
  ∃ key canonical, ResolvesTo parent child key canonical ∧
    (∀ expected, hidden[key]? = some expected → expected = canonical) ∧
    (isExpanded child = true → ∃ next, mappings[canonical]? = some next ∧
      ∀ n m, Visited mappings child next n m → Agrees mappings hidden n m)

/-- All dependencies of a module pass when all that is visited from it agrees. -/
theorem passes_iff {node : Json} {parent : RepoMapping} {children : List Json}
    (hchildren : node.children "dependencies" = some children) :
    (∀ child ∈ children, Passes mappings hidden parent child) ↔
      ∀ n m, Visited mappings node parent n m → Agrees mappings hidden n m := by
  constructor
  · intro h n m hvisited
    rcases hvisited.cases_start with
      ⟨rfl, rfl⟩ | ⟨children', child, key, canonical, next, hchildren', hmem, hresolves, hexpanded,
        hnext, hbelow⟩
    · refine ⟨children, hchildren, fun child hmem => ?_⟩
      obtain ⟨key, canonical, hresolves, hagrees, hmore⟩ := h child hmem
      exact ⟨key, canonical, hresolves, hagrees, fun hexpanded =>
        (hmore hexpanded).imp fun _ hnext => hnext.1⟩
    · cases hchildren.symm.trans hchildren'
      obtain ⟨key', canonical', hresolves', -, hmore⟩ := h child hmem
      obtain ⟨rfl, rfl⟩ := hresolves.unique hresolves'
      obtain ⟨next', hnext', hagrees⟩ := hmore hexpanded
      cases hnext.symm.trans hnext'
      exact hagrees n m hbelow
  · intro h child hmem
    obtain ⟨children', hchildren', hall⟩ := h node parent .start
    cases hchildren.symm.trans hchildren'
    obtain ⟨key, canonical, hresolves, hagrees, hmore⟩ := hall child hmem
    refine ⟨key, canonical, hresolves, hagrees, fun hexpanded => ?_⟩
    obtain ⟨next, hnext⟩ := hmore hexpanded
    exact ⟨next, hnext, fun n m hvisited =>
      h n m (hvisited.of_child hchildren hmem hresolves hexpanded hnext)⟩

/-- The walk comes to its end when every module it visits agrees. -/
theorem exists_walkHidden_iff (node : Json) (parent : RepoMapping) (seen : StringSet) :
    (∃ seen', walkHidden mappings hidden node parent seen = some seen') ↔
      ∀ n m, Visited mappings node parent n m → Agrees mappings hidden n m := by
  induction hsize : sizeOf node using Nat.strong_induction_on generalizing node parent seen with
  | h size ih =>
      subst hsize
      rw [walkHidden]
      split
      case h_1 hnone =>
          constructor
          · rintro ⟨seen', hseen⟩
            cases hseen
          · intro h
            obtain ⟨children, hchildren, -⟩ := h node parent .start
            rw [hnone] at hchildren
            cases hchildren
      case h_2 children hchildren =>
          rw [← passes_iff hchildren, exists_foldlM_iff (P := fun child =>
            Passes mappings hidden parent child.1)]
          · constructor
            · intro h child hmem
              exact h ⟨child, hmem⟩ (List.mem_attach _ _)
            · intro h child _
              exact h child.1 child.2
          · rintro ⟨child, hmem⟩ - acc
            have hsmaller := Json.sizeOf_lt_of_mem_children hchildren hmem
            simp only [visitHidden_eq_some]
            constructor
            · rintro ⟨seen', key, canonical, checked, hresolves, hchecked, hend⟩
              refine ⟨key, canonical, hresolves, (checkHidden_eq_some hchecked).1,
                fun hexpanded => ?_⟩
              rcases hend with ⟨-, next, hnext, hwalk⟩ | ⟨hnot, -⟩
              · exact ⟨next, hnext, (ih _ hsmaller child next checked rfl).mp ⟨seen', hwalk⟩⟩
              · rw [hexpanded] at hnot
                cases hnot
            · rintro ⟨key, canonical, hresolves, hagrees, hmore⟩
              obtain ⟨checked, hchecked⟩ := exists_checkHidden hagrees acc
              cases hexpanded : isExpanded child with
              | false =>
                  exact ⟨checked, key, canonical, checked, hresolves, hchecked, Or.inr ⟨rfl, rfl⟩⟩
              | true =>
                  obtain ⟨next, hnext, hbelow⟩ := hmore hexpanded
                  obtain ⟨seen', hwalk⟩ := (ih _ hsmaller child next checked rfl).mpr hbelow
                  exact ⟨seen', key, canonical, checked, hresolves, hchecked,
                    Or.inl ⟨rfl, next, hnext, hwalk⟩⟩

/-- A hidden module is named by a dependency, or below it. -/
def BindsHidden (mappings : StringMap RepoMapping) (hidden : StringMap String)
    (parent : RepoMapping) (child : Json) (key : String) : Prop :=
  key ∈ hidden ∧ (child.text "key" = some key ∨
    ∃ key' canonical next, ResolvesTo parent child key' canonical ∧ isExpanded child = true ∧
      mappings[canonical]? = some next ∧
      ∃ n m, Visited mappings child next n m ∧ DependsOnKey n key)

/-- What the dependencies of a module name is what the modules visited from it depend on. -/
theorem exists_names_iff {node : Json} {parent : RepoMapping} {children : List Json}
    (hchildren : node.children "dependencies" = some children) {key : String} :
    (∃ child ∈ children, BindsHidden mappings hidden parent child key) ↔
      key ∈ hidden ∧ ∃ n m, Visited mappings node parent n m ∧ DependsOnKey n key := by
  constructor
  · rintro ⟨child, hmem, hhidden, hkey | ⟨key', canonical, next, hresolves, hexpanded, hnext, n, m,
      hvisited, hdepends⟩⟩
    · exact ⟨hhidden, node, parent, .start, children, hchildren, child, hmem, hkey⟩
    · exact ⟨hhidden, n, m, hvisited.of_child hchildren hmem hresolves hexpanded hnext, hdepends⟩
  · rintro ⟨hhidden, n, m, hvisited, hdepends⟩
    rcases hvisited.cases_start with
      ⟨rfl, rfl⟩ | ⟨children', child, key', canonical, next, hchildren', hmem, hresolves, hexpanded,
        hnext, hbelow⟩
    · obtain ⟨children', hchildren', child, hmem, hkey⟩ := hdepends
      cases hchildren.symm.trans hchildren'
      exact ⟨child, hmem, hhidden, Or.inl hkey⟩
    · cases hchildren.symm.trans hchildren'
      exact ⟨child, hmem, hhidden, Or.inr
        ⟨key', canonical, next, hresolves, hexpanded, hnext, n, m, hbelow, hdepends⟩⟩

/-- The walk has seen the hidden modules that some visited module depends on. -/
theorem mem_walkHidden {node : Json} {parent : RepoMapping} {seen seen' : StringSet}
    (h : walkHidden mappings hidden node parent seen = some seen') (key : String) :
    key ∈ seen' ↔ key ∈ seen ∨ key ∈ hidden ∧
      ∃ n m, Visited mappings node parent n m ∧ DependsOnKey n key := by
  induction hsize : sizeOf node using Nat.strong_induction_on
    generalizing node parent seen seen' key with
  | h size ih =>
      subst hsize
      rw [walkHidden] at h
      split at h
      case h_1 hnone => cases h
      case h_2 children hchildren =>
          have hstep : ∀ child ∈ children.attach, ∀ acc next,
              visitHidden mappings hidden
                  (fun parent seen => walkHidden mappings hidden child.1 parent seen) parent
                  child.1 acc = some next →
                ∀ k, k ∈ next ↔ k ∈ acc ∨ BindsHidden mappings hidden parent child.1 k := by
            rintro ⟨child, hmem⟩ - acc next hvisit k
            have hsmaller := Json.sizeOf_lt_of_mem_children hchildren hmem
            obtain ⟨key, canonical, checked, hresolves, hchecked, hend⟩ :=
              visitHidden_eq_some.mp hvisit
            have hfirst := (checkHidden_eq_some hchecked).2 k
            have hkey : child.text "key" = some k ↔ k = key := by
              rw [hresolves.key, Option.some.injEq]
              exact eq_comm
            rcases hend with ⟨hexpanded, mapping, hmapping, hwalk⟩ | ⟨hexpanded, rfl⟩
            · rw [ih _ hsmaller hwalk k rfl, hfirst, BindsHidden, hkey]
              constructor
              · rintro ((hold | ⟨hsame, hhidden⟩) | ⟨hhidden, hbelow⟩)
                · exact Or.inl hold
                · exact Or.inr ⟨hhidden, Or.inl hsame⟩
                · exact Or.inr ⟨hhidden, Or.inr
                    ⟨key, canonical, mapping, hresolves, hexpanded, hmapping, hbelow⟩⟩
              · rintro (hold | ⟨hhidden, hsame | ⟨key', canonical', mapping', hresolves', -, hmapping',
                  hbelow⟩⟩)
                · exact Or.inl (Or.inl hold)
                · exact Or.inl (Or.inr ⟨hsame, hhidden⟩)
                · obtain ⟨rfl, rfl⟩ := hresolves.unique hresolves'
                  cases hmapping.symm.trans hmapping'
                  exact Or.inr ⟨hhidden, hbelow⟩
            · rw [hfirst, BindsHidden, hkey]
              constructor
              · rintro (hold | ⟨hsame, hhidden⟩)
                · exact Or.inl hold
                · exact Or.inr ⟨hhidden, Or.inl hsame⟩
              · rintro (hold | ⟨hhidden, hsame | ⟨_, _, _, -, hexpanded', -⟩⟩)
                · exact Or.inl hold
                · exact Or.inr ⟨hsame, hhidden⟩
                · rw [hexpanded] at hexpanded'
                  cases hexpanded'
          rw [foldlM_collects hstep h key, ← exists_names_iff hchildren]
          refine or_congr_right ⟨?_, ?_⟩
          · rintro ⟨child, -, hnames⟩
            exact ⟨child.1, child.2, hnames⟩
          · rintro ⟨child, hmem, hnames⟩
            exact ⟨⟨child, hmem⟩, List.mem_attach _ _, hnames⟩

/-- A set of keys of a map is all of them when it has as many. -/
theorem size_eq_size_iff {seen : StringSet} (h : ∀ key ∈ seen, key ∈ hidden) :
    seen.size = hidden.size ↔ ∀ key ∈ hidden, key ∈ seen := by
  have hsub : List.Subperm seen.toList hidden.keys := by
    apply List.subperm_of_subset
    · exact seen.distinct_toList.imp fun hne => by simpa using hne
    · intro key hkey
      exact Std.ExtTreeMap.mem_keys.mpr (h key (Std.ExtTreeSet.mem_toList.mp hkey))
  rw [← Std.ExtTreeSet.length_toList, ← Std.ExtTreeMap.length_keys]
  constructor
  · intro hsize key hkey
    have hperm := hsub.perm_of_length_le hsize.ge
    exact Std.ExtTreeSet.mem_toList.mp (hperm.mem_iff.mpr (Std.ExtTreeMap.mem_keys.mpr hkey))
  · intro hall
    apply le_antisymm hsub.length_le
    apply (List.subperm_of_subset Std.ExtTreeMap.nodup_keys ?_).length_le
    intro key hkey
    exact Std.ExtTreeSet.mem_toList.mpr (hall key (Std.ExtTreeMap.mem_keys.mp hkey))

/-- Both the graph and the mapping of the root are needed. -/
theorem exists_of_verified {graph : Option Json} {rootMapping : Option RepoMapping}
    (h : verifiedHiddenModules mappings hidden graph rootMapping = true) :
    ∃ start root, graph = some start ∧ rootMapping = some root := by
  cases graph with
  | none => simp [verifiedHiddenModules] at h
  | some start =>
      cases rootMapping with
      | none => simp [verifiedHiddenModules] at h
      | some root => exact ⟨start, root, rfl, rfl⟩

theorem verifiedHiddenModules_some {start : Json} {root : RepoMapping} :
    verifiedHiddenModules mappings hidden (some start) (some root) = true ↔
      hidden.isEmpty = false ∧ mappings.isEmpty = false ∧
        (∀ n m, Visited mappings start root n m → Agrees mappings hidden n m) ∧
        ∀ key ∈ hidden, ∃ n m, Visited mappings start root n m ∧ DependsOnKey n key := by
  have hseen : ∀ seen, walkHidden mappings hidden start root ∅ = some seen →
      (seen.size = hidden.size ↔ ∀ key ∈ hidden,
        ∃ n m, Visited mappings start root n m ∧ DependsOnKey n key) := by
    intro seen hwalk
    have hmem := mem_walkHidden hwalk
    simp only [Std.ExtTreeSet.not_mem_empty, false_or] at hmem
    rw [size_eq_size_iff fun key hkey => ((hmem key).mp hkey).1]
    refine forall₂_congr fun key hkey => ?_
    rw [hmem key]
    exact and_iff_right hkey
  rw [verifiedHiddenModules]
  cases hidden.isEmpty with
  | true => simp
  | false =>
      cases mappings.isEmpty with
      | true => simp
      | false =>
          simp only [Bool.or_self, Bool.false_eq_true, if_false, true_and, Option.any_eq_true,
            decide_eq_true_eq]
          constructor
          · rintro ⟨seen, hwalk, hsize⟩
            exact ⟨(exists_walkHidden_iff start root ∅).mp ⟨seen, hwalk⟩, (hseen seen hwalk).mp hsize⟩
          · rintro ⟨hagrees, hmet⟩
            obtain ⟨seen, hwalk⟩ := (exists_walkHidden_iff start root ∅).mpr hagrees
            exact ⟨seen, hwalk, (hseen seen hwalk).mpr hmet⟩

/-- In a graph that agrees, an expected module resolves to its repository. -/
theorem resolvesTo_expected {n : Json} {m : RepoMapping} (h : Agrees mappings hidden n m)
    {children : List Json} (hchildren : n.children "dependencies" = some children) {child : Json}
    (hmem : child ∈ children) {key expected : String} (hkey : child.text "key" = some key)
    (hexpected : hidden[key]? = some expected) : ResolvesTo m child key expected := by
  obtain ⟨children', hchildren', hall⟩ := h
  cases hchildren.symm.trans hchildren'
  obtain ⟨key', canonical, hresolves, hsame, -⟩ := hall child hmem
  cases hkey.symm.trans hresolves.key
  cases hsame expected hexpected
  exact hresolves

end Spec

/-- The expected names are verified exactly when every dependency in the part of the module graph
that the mappings lead to resolves, where it is expected to, and every expected module is met
there. Then wherever an expected module is depended on, the name resolves to its repository. -/
theorem verified_hidden_modules_exact (mappings : StringMap RepoMapping)
    (hidden : StringMap String) (graph : Option Json) (rootMapping : Option RepoMapping) :
    (verifiedHiddenModules mappings hidden graph rootMapping = true ↔
      hidden.isEmpty = false ∧ mappings.isEmpty = false ∧
        ∃ start root, graph = some start ∧ rootMapping = some root ∧
          (∀ n m, Visited mappings start root n m → Agrees mappings hidden n m) ∧
          ∀ key ∈ hidden, ∃ n m, Visited mappings start root n m ∧ DependsOnKey n key) ∧
      (verifiedHiddenModules mappings hidden graph rootMapping = true →
        ∃ start root, graph = some start ∧ rootMapping = some root ∧
          ∀ n m, Visited mappings start root n m → ∀ children,
            n.children "dependencies" = some children → ∀ child ∈ children, ∀ key expected,
              child.text "key" = some key → hidden[key]? = some expected →
                ResolvesTo m child key expected) := by
  constructor
  · constructor
    · intro hverified
      obtain ⟨start, root, rfl, rfl⟩ := exists_of_verified hverified
      obtain ⟨hhidden, hmappings, hagrees, hmet⟩ := verifiedHiddenModules_some.mp hverified
      exact ⟨hhidden, hmappings, start, root, rfl, rfl, hagrees, hmet⟩
    · rintro ⟨hhidden, hmappings, start, root, rfl, rfl, hagrees, hmet⟩
      exact verifiedHiddenModules_some.mpr ⟨hhidden, hmappings, hagrees, hmet⟩
  · intro hverified
    obtain ⟨start, root, rfl, rfl⟩ := exists_of_verified hverified
    obtain ⟨-, -, hagrees, -⟩ := verifiedHiddenModules_some.mp hverified
    refine ⟨start, root, rfl, rfl, ?_⟩
    intro n m hvisited children hchildren child hmem key expected hkey hexpected
    exact resolvesTo_expected (hagrees n m hvisited) hchildren hmem hkey hexpected

/-- A module the root has no name for. -/
def hiddenDependency : Json :=
  .object [("key", .string "dep@2.0"), ("apparentName", .string "lib")]

def hiddenModule : Json :=
  .object [("key", .string "app@1.0"), ("apparentName", .string "app"),
    ("dependencies", .array [hiddenDependency])]

def hiddenGraph : Json :=
  .object [("key", .string "<root>"), ("dependencies", .array [hiddenModule])]

def rootNames : RepoMapping :=
  (∅ : RepoMapping).insert "app" "app+"

def moduleNames : StringMap RepoMapping :=
  (∅ : StringMap RepoMapping).insert "app+" ((∅ : RepoMapping).insert "lib" "dep+")

def expectedNames : StringMap String :=
  (∅ : StringMap String).insert "dep@2.0" "dep+"

/-- The module behind another one is verified under its expected name. -/
theorem verified_hidden_modules_exact_dep :
    ∃ start root, some hiddenGraph = some start ∧ some rootNames = some root ∧
      ∀ n m, Visited moduleNames start root n m → ∀ children,
        n.children "dependencies" = some children → ∀ child ∈ children, ∀ key expected,
          child.text "key" = some key → expectedNames[key]? = some expected →
            ResolvesTo m child key expected := by
  apply (verified_hidden_modules_exact moduleNames expectedNames (some hiddenGraph)
    (some rootNames)).2
  have hdep : walkHidden moduleNames expectedNames hiddenModule
      ((∅ : RepoMapping).insert "lib" "dep+") ∅ = some ((∅ : StringSet).insert "dep@2.0") := by
    rw [@walkHidden_singleton moduleNames expectedNames _ hiddenDependency rfl, visitHidden_eq_some]
    exact ⟨"dep@2.0", "dep+", _, ⟨by decide +kernel, "lib", by decide +kernel, by decide +kernel⟩,
      by decide +kernel, Or.inr ⟨by decide +kernel, rfl⟩⟩
  have hwalk : walkHidden moduleNames expectedNames hiddenGraph rootNames ∅ =
      some ((∅ : StringSet).insert "dep@2.0") := by
    rw [@walkHidden_singleton moduleNames expectedNames _ hiddenModule rfl, visitHidden_eq_some]
    exact ⟨"app@1.0", "app+", ∅, ⟨by decide +kernel, "app", by decide +kernel, by decide +kernel⟩,
      by decide +kernel, Or.inl ⟨by decide +kernel, _, by decide +kernel, hdep⟩⟩
  rw [verifiedHiddenModules, hwalk]
  decide +kernel

end BazelDiff
