/-
# The graph of the repository targets

The edges between repository targets follow a ranking of the repositories: modules
above the modules they depend on, modules above the repositories of extensions, imported
repositories above the siblings nobody imports. So the graph has no cycle, and every
generated repository is reached from its module and from the imported repositories of
its extension.
-/

import BazelDiff.Query.Repositories
import Mathlib.Logic.Relation

namespace BazelDiff

open Text

namespace Lowering

variable {lowering : Lowering} {repositories : List Repository}

/-- The dependency edges between modules, by name. -/
def ModuleEdge (lowering : Lowering) (module dependency : String) : Prop :=
  ∃ dependencies, lowering.moduleEdges[module]? = some dependencies ∧ dependency ∈ dependencies

/-- Which repositories the nodes of a repository can depend on. -/
inductive Linked (lowering : Lowering) (canonical dependency : String) : Prop
  | module {module name : String} (hmodule : moduleName canonical = some module)
      (hname : moduleName dependency = some name) (hedge : lowering.ModuleEdge module name)
  | generated (hmodule : isExtensionRepo canonical = false)
      (hgenerated : isExtensionRepo dependency = true)
  | sibling {imported : StringSet} (himported : lowering.extensionEdges = some imported)
      (hhub : isExtensionRepo canonical = true) (hcontains : imported.contains canonical = true)
      (hspoke : isExtensionRepo dependency = true)
      (hhidden : imported.contains dependency = false)

theorem isExtensionRepo_of_moduleName {canonical module : String}
    (h : moduleName canonical = some module) : isExtensionRepo canonical = false := by
  rw [moduleName] at h
  split_ifs at h with hcount
  simp [isExtensionRepo, hcount]

theorem isExtensionRepo_of_usagePrefix {canonical extension : String}
    (h : extensionUsagePrefix canonical = some extension) : isExtensionRepo canonical = true := by
  rw [extensionUsagePrefix] at h
  split_ifs at h with hextension
  exact hextension

/-- A name that stands for a repository the nodes of `canonical` can depend on. -/
def LinkedName (lowering : Lowering) (repositories : List Repository) (canonical name : String) :
    Prop :=
  ∃ repository ∈ repositories, name ∈ lowering.nodeNames repository.canonical ∧
    lowering.Linked canonical repository.canonical

theorem linkedName_of_mem_ownDependencies {canonical name : String}
    (h : name ∈ lowering.ownDependencies repositories canonical) :
    LinkedName lowering repositories canonical name := by
  rcases (mem_ownDependencies canonical name).mp h with
    ⟨module, dependencies, dependency, found, hmodule, hedges, hdependency, hfound, hname⟩ |
    ⟨extension, hname⟩
  · obtain ⟨hdependencyName, repository, hrepository, rfl⟩ := moduleToCanonical_eq_some hfound
    exact ⟨repository, hrepository, hname,
      .module hmodule hdependencyName ⟨dependencies, hedges, hdependency⟩⟩
  · cases himported : lowering.extensionEdges with
    | none => simp [moduleExtensionRepos, himported, setAt] at hname
    | some imported =>
        obtain ⟨repository, hrepository, hextension, howner, hname⟩ :=
          (mem_moduleExtensionRepos himported canonical extension name).mp hname
        exact ⟨repository, hrepository, hname, .generated (isExtensionRepo_owner howner)
          (isExtensionRepo_of_usagePrefix hextension)⟩

/-- What the group of hidden siblings is. -/
theorem spokesOf_eq_some {canonical extension : String} {names : StringSet}
    (h : lowering.spokesOf repositories canonical = some (extension, names)) :
    ∃ imported, lowering.extensionEdges = some imported ∧
      extensionUsagePrefix canonical = some extension ∧ imported.contains canonical = true ∧
      names = setAt (lowering.extensionSpokes repositories) extension := by
  obtain ⟨usage, husage, h⟩ := Option.bind_eq_some_iff.mp h
  obtain ⟨imported, himported, h⟩ := Option.bind_eq_some_iff.mp h
  cases hcontains : imported.contains canonical with
  | false => simp [hcontains] at h
  | true =>
      rw [hcontains] at h
      obtain ⟨found, hfound, hpair⟩ := Option.map_eq_some_iff.mp h
      cases hpair
      exact ⟨imported, himported, husage, hcontains, by rw [setAt, hfound]; rfl⟩

theorem linkedName_of_mem_spokes {canonical extension name : String} {names : StringSet}
    (h : lowering.spokesOf repositories canonical = some (extension, names)) (hname : name ∈ names) :
    LinkedName lowering repositories canonical name := by
  obtain ⟨imported, himported, hextension, hcontains, rfl⟩ := spokesOf_eq_some h
  obtain ⟨repository, hrepository, husage, hhidden, hname⟩ :=
    (mem_extensionSpokes himported extension name).mp hname
  exact ⟨repository, hrepository, hname, .sibling himported
    (isExtensionRepo_of_usagePrefix hextension) hcontains
    (isExtensionRepo_of_usagePrefix husage) hhidden⟩

/-! ## Emitted targets -/

/-- The label of an emitted target. -/
def emittedLabel (emitted : Target × Option RepositoryInputGroup) : Option String :=
  emitted.1.rule.map (·.name)

theorem mem_inputs_repositoryTarget {rule : Rule} {apparent input : String}
    {dependencies : StringSet} :
    input ∈ materializedInputs (repositoryTarget rule apparent dependencies, none) ↔
      ∃ name ∈ dependencies, name ≠ apparent ∧ input = externalLabel name := by
  simp only [materializedInputs, repositoryTarget, Option.map_some, Option.getD_some,
    List.mem_map, List.mem_filter, Std.ExtTreeSet.mem_toList, decide_eq_true_eq]
  constructor
  · rintro ⟨name, ⟨hname, hne⟩, rfl⟩
    exact ⟨name, hname, hne, rfl⟩
  · rintro ⟨name, hname, hne, rfl⟩
    exact ⟨name, ⟨hname, hne⟩, rfl⟩

/-- The inputs of a node: its dependencies other than itself, or the siblings it shares. -/
theorem mem_inputs_nodeTarget {rule : Rule} {dependencies : StringSet}
    {group : Option (String × StringSet)} {apparent input : String} :
    input ∈ materializedInputs (nodeTarget rule dependencies group apparent) ↔
      ∃ name ∈ (group.map (·.2)).getD dependencies, name ≠ apparent ∧
        input = externalLabel name := by
  cases group with
  | none => exact mem_inputs_repositoryTarget
  | some group =>
      obtain ⟨extension, names⟩ := group
      rw [nodeTarget]
      cases hcontains : names.contains apparent with
      | true => exact mem_inputs_repositoryTarget
      | false =>
          have hown : ∀ name ∈ names, name ≠ apparent := by
            rintro name hname rfl
            rw [Std.ExtTreeSet.contains_iff_mem.mpr hname] at hcontains
            cases hcontains
          simp only [materializedInputs, Bool.not_false, if_true, List.mem_map,
            Std.ExtTreeSet.mem_toList, Option.map_some, Option.getD_some]
          constructor
          · rintro ⟨name, hname, rfl⟩
            exact ⟨name, hname, hown name hname, rfl⟩
          · rintro ⟨name, hname, -, rfl⟩
            exact ⟨name, hname, rfl⟩

theorem emittedLabel_nodeTarget (rule : Rule) (dependencies : StringSet)
    (group : Option (String × StringSet)) (apparent : String) :
    emittedLabel (nodeTarget rule dependencies group apparent) = some (externalLabel apparent) := by
  cases group with
  | none => rfl
  | some group =>
      obtain ⟨extension, names⟩ := group
      rw [nodeTarget]
      split_ifs
      · rfl
      · rfl

/-- All a record's nodes depend on: the hidden siblings when there is nothing else. -/
theorem linkedName_of_mem_dependencies {canonical name : String}
    (h : name ∈ ((lowering.dependenciesAndGroup repositories canonical).2.map (·.2)).getD
      (lowering.dependenciesAndGroup repositories canonical).1 ∨
      name ∈ (lowering.dependenciesAndGroup repositories canonical).1) :
    LinkedName lowering repositories canonical name := by
  rw [dependenciesAndGroup] at h
  split_ifs at h with hempty
  · have hnone : name ∉ lowering.ownDependencies repositories canonical := by
      rw [Std.ExtTreeSet.isEmpty_iff.mp hempty]
      exact Std.ExtTreeSet.not_mem_empty
    cases hspokes : lowering.spokesOf repositories canonical with
    | none => simp [hspokes, hnone] at h
    | some group =>
        have hname : name ∈ group.2 := by simpa [hspokes, hnone] using h
        exact linkedName_of_mem_spokes hspokes hname
  · rw [Option.map_none, Option.getD_none, or_self, mem_foldl_insert] at h
    rcases h with hname | hname
    · exact linkedName_of_mem_ownDependencies hname
    · cases hspokes : lowering.spokesOf repositories canonical with
      | none => simp [hspokes] at hname
      | some group =>
          have hname : name ∈ group.2 := by simpa [hspokes] using hname
          exact linkedName_of_mem_spokes hspokes hname

/-- What an emitted target is: a node of a record or a view of one, with inputs the record is
linked to. -/
structure EmittedBy (lowering : Lowering) (repositories : List Repository)
    (repository : Repository) (label : String) (inputs : List String) : Prop where
  named : ∃ apparent ∈ lowering.nodeNames repository.canonical, label = externalLabel apparent ∨
    ∃ extension ∈ lowering.labelOnly.siblingExtensions,
      label = externalLabel (extensionViewNode apparent extension)
  linked : ∀ input ∈ inputs, ∃ name, input = externalLabel name ∧
    LinkedName lowering repositories repository.canonical name

theorem exists_emittedBy {emitted : Target × Option RepositoryInputGroup}
    (h : emitted ∈ lowering.lowerRepositories repositories) :
    ∃ repository ∈ repositories, ∃ label, emittedLabel emitted = some label ∧
      EmittedBy lowering repositories repository label (materializedInputs emitted) := by
  obtain ⟨repository, hrepository, h⟩ := List.mem_flatMap.mp h
  obtain ⟨rule, -, hemits⟩ := lowering.mem_lowerRepository repositories repository
  obtain ⟨apparent, happarent, rfl | ⟨extension, repos, -, hsibling, rfl⟩⟩ := (hemits emitted).mp h
  · refine ⟨repository, hrepository, _, emittedLabel_nodeTarget _ _ _ _,
      ⟨apparent, happarent, .inl rfl⟩, ?_⟩
    intro input hinput
    obtain ⟨name, hname, -, rfl⟩ := mem_inputs_nodeTarget.mp hinput
    exact ⟨name, rfl, linkedName_of_mem_dependencies (.inl hname)⟩
  · refine ⟨repository, hrepository, _, rfl, ⟨apparent, happarent, .inr ⟨extension, ?_, rfl⟩⟩, ?_⟩
    · exact Std.ExtTreeSet.contains_iff_mem.mp hsibling
    · intro input hinput
      obtain ⟨name, hname, -, rfl⟩ := mem_inputs_repositoryTarget.mp hinput
      have hname := (List.mem_filter.mp ((mem_setOf _ _).mp hname)).1
      exact ⟨name, rfl, linkedName_of_mem_dependencies (.inr (Std.ExtTreeSet.mem_toList.mp hname))⟩

/-! ## No cycles -/

/-- The edges of the emitted targets, shared inputs included. -/
def EmittedEdge (lowering : Lowering) (repositories : List Repository) (label input : String) :
    Prop :=
  ∃ emitted ∈ lowering.lowerRepositories repositories, emittedLabel emitted = some label ∧
    input ∈ materializedInputs emitted

/-- Different repositories have different nodes, and a view is nobody else's node. -/
structure DistinctNodes (lowering : Lowering) (repositories : List Repository) : Prop where
  nodes : ∀ r ∈ repositories, ∀ r' ∈ repositories, ∀ name ∈ lowering.nodeNames r.canonical,
    name ∈ lowering.nodeNames r'.canonical → r.canonical = r'.canonical
  views : ∀ r ∈ repositories, ∀ r' ∈ repositories, ∀ name ∈ lowering.nodeNames r.canonical,
    ∀ extension ∈ lowering.labelOnly.siblingExtensions,
      extensionViewNode name extension ∈ lowering.nodeNames r'.canonical →
        r.canonical = r'.canonical

/-- A record that emits a label which is a node of another record is that record. -/
theorem DistinctNodes.canonical_eq (h : DistinctNodes lowering repositories)
    {r r' : Repository} (hr : r ∈ repositories) (hr' : r' ∈ repositories) {name : String}
    {inputs : List String} (hemitted : EmittedBy lowering repositories r (externalLabel name) inputs)
    (hname : name ∈ lowering.nodeNames r'.canonical) : r.canonical = r'.canonical := by
  obtain ⟨apparent, happarent, hlabel | ⟨extension, hextension, hlabel⟩⟩ := hemitted.named
  · have heq := externalLabel_injective hlabel
    exact h.nodes r hr r' hr' apparent happarent (heq ▸ hname)
  · have heq := externalLabel_injective hlabel
    exact h.views r hr r' hr' apparent happarent extension hextension (heq ▸ hname)

/-- How a chain of links relates its ends. -/
inductive Below (lowering : Lowering) (canonical dependency : String) : Prop
  | module {module name : String} (hmodule : moduleName canonical = some module)
      (hname : moduleName dependency = some name)
      (hpath : Relation.TransGen lowering.ModuleEdge module name)
  | generated (hmodule : isExtensionRepo canonical = false)
      (hgenerated : isExtensionRepo dependency = true)
  | sibling {imported : StringSet} (himported : lowering.extensionEdges = some imported)
      (hhub : isExtensionRepo canonical = true) (hcontains : imported.contains canonical = true)
      (hspoke : isExtensionRepo dependency = true)
      (hhidden : imported.contains dependency = false)

theorem Linked.below {canonical dependency : String} (h : lowering.Linked canonical dependency) :
    lowering.Below canonical dependency := by
  cases h with
  | module hmodule hname hedge => exact .module hmodule hname (.single hedge)
  | generated hmodule hgenerated => exact .generated hmodule hgenerated
  | sibling himported hhub hcontains hspoke hhidden =>
      exact .sibling himported hhub hcontains hspoke hhidden

theorem Below.tail {first middle last : String} (h : lowering.Below first middle)
    (hlink : lowering.Linked middle last) : lowering.Below first last := by
  cases hlink with
  | module hmodule hname hedge =>
      cases h with
      | module hfirst hmiddle hpath =>
          rw [hmodule] at hmiddle
          cases hmiddle
          exact .module hfirst hname (hpath.tail hedge)
      | generated _ hgenerated =>
          rw [isExtensionRepo_of_moduleName hmodule] at hgenerated
          cases hgenerated
      | sibling _ _ _ hspoke _ =>
          rw [isExtensionRepo_of_moduleName hmodule] at hspoke
          cases hspoke
  | generated hmodule hgenerated =>
      cases h with
      | module hfirst _ _ => exact .generated (isExtensionRepo_of_moduleName hfirst) hgenerated
      | generated _ hgenerated' =>
          rw [hmodule] at hgenerated'
          cases hgenerated'
      | sibling _ _ _ hspoke _ =>
          rw [hmodule] at hspoke
          cases hspoke
  | sibling himported hhub hcontains hspoke hhidden =>
      cases h with
      | module hfirst _ _ => exact .generated (isExtensionRepo_of_moduleName hfirst) hspoke
      | generated hmodule _ => exact .generated hmodule hspoke
      | sibling himported' _ _ _ hhidden' =>
          rw [himported] at himported'
          cases himported'
          rw [hcontains] at hhidden'
          cases hhidden'

theorem not_below_self (hacyclic : ∀ module, ¬ Relation.TransGen lowering.ModuleEdge module module)
    (canonical : String) : ¬ lowering.Below canonical canonical := by
  intro h
  cases h with
  | module hmodule hname hpath =>
      rw [hmodule] at hname
      cases hname
      exact hacyclic _ hpath
  | generated hmodule hgenerated =>
      rw [hmodule] at hgenerated
      cases hgenerated
  | sibling _ _ hcontains _ hhidden =>
      rw [hcontains] at hhidden
      cases hhidden

/-- A path of the emitted graph leads from a record to a node of one below it. -/
theorem below_of_transGen (hdistinct : DistinctNodes lowering repositories) {label input : String}
    (h : Relation.TransGen (EmittedEdge lowering repositories) label input) :
    ∃ r ∈ repositories, ∃ inputs, EmittedBy lowering repositories r label inputs ∧
      ∃ r' ∈ repositories, ∃ name ∈ lowering.nodeNames r'.canonical,
        input = externalLabel name ∧ lowering.Below r.canonical r'.canonical := by
  have hstep : ∀ {label input}, EmittedEdge lowering repositories label input →
      ∃ r ∈ repositories, ∃ inputs, EmittedBy lowering repositories r label inputs ∧
        ∃ r' ∈ repositories, ∃ name ∈ lowering.nodeNames r'.canonical,
          input = externalLabel name ∧ lowering.Linked r.canonical r'.canonical := by
    rintro label input ⟨emitted, hemitted, hlabel, hinput⟩
    obtain ⟨r, hr, label', hlabel', hby⟩ := exists_emittedBy hemitted
    rw [hlabel] at hlabel'
    cases hlabel'
    obtain ⟨name, rfl, r', hr', hname, hlinked⟩ := hby.linked input hinput
    exact ⟨r, hr, _, hby, r', hr', name, hname, rfl, hlinked⟩
  induction h with
  | single hedge =>
      obtain ⟨r, hr, inputs, hby, r', hr', name, hname, rfl, hlinked⟩ := hstep hedge
      exact ⟨r, hr, inputs, hby, r', hr', name, hname, rfl, hlinked.below⟩
  | tail _ hedge ih =>
      obtain ⟨r, hr, inputs, hby, r', hr', name, hname, rfl, hbelow⟩ := ih
      obtain ⟨r₂, hr₂, inputs₂, hby₂, r₃, hr₃, name₃, hname₃, rfl, hlinked⟩ := hstep hedge
      have heq := hdistinct.canonical_eq hr₂ hr' hby₂ hname
      exact ⟨r, hr, inputs, hby, r₃, hr₃, name₃, hname₃, rfl, hbelow.tail (heq ▸ hlinked)⟩

/-- The targets of the repositories form no cycle. -/
theorem lowerRepositories_acyclic
    (hacyclic : ∀ module, ¬ Relation.TransGen lowering.ModuleEdge module module)
    (hdistinct : DistinctNodes lowering repositories) (label : String) :
    ¬ Relation.TransGen (EmittedEdge lowering repositories) label label := by
  intro hcycle
  obtain ⟨r, hr, inputs, hby, r', hr', name, hname, rfl, hbelow⟩ :=
    below_of_transGen hdistinct hcycle
  have heq := hdistinct.canonical_eq hr hr' hby hname
  exact not_below_self hacyclic _ (heq ▸ hbelow)

/-! ## Reachability of generated repositories -/

/-- All that a record depends on, by names. -/
theorem mem_dependencies {canonical name : String}
    (hname : name ∈ lowering.ownDependencies repositories canonical ∨
      ∃ extension names, lowering.spokesOf repositories canonical = some (extension, names) ∧
        name ∈ names) :
    name ∈ ((lowering.dependenciesAndGroup repositories canonical).2.map (·.2)).getD
      (lowering.dependenciesAndGroup repositories canonical).1 := by
  rw [dependenciesAndGroup]
  split_ifs with hempty
  · rcases hname with hname | ⟨extension, names, hspokes, hname⟩
    · rw [Std.ExtTreeSet.isEmpty_iff.mp hempty] at hname
      exact absurd hname Std.ExtTreeSet.not_mem_empty
    · simpa [hspokes] using hname
  · rw [Option.map_none, Option.getD_none, mem_foldl_insert]
    rcases hname with hname | ⟨extension, names, hspokes, hname⟩
    · exact .inl hname
    · exact .inr (by simpa [hspokes] using hname)

/-- The dependencies of its own are never shared. -/
theorem mem_dependencies_of_own {canonical name : String}
    (hname : name ∈ lowering.ownDependencies repositories canonical) :
    name ∈ (lowering.dependenciesAndGroup repositories canonical).1 := by
  rw [dependenciesAndGroup]
  split_ifs
  · exact hname
  · rw [mem_foldl_insert]
    exact .inl hname

/-- The nodes of the repositories an extension generates. -/
def ExtensionNode (lowering : Lowering) (repositories : List Repository)
    (extension name : String) : Prop :=
  ∃ repository ∈ repositories, extensionUsagePrefix repository.canonical = some extension ∧
    name ∈ lowering.nodeNames repository.canonical

/-- Every node of a repository is an input of a target, but for the target itself and the nodes
that are left out. -/
def Reaches (lowering : Lowering) (left : String → Prop)
    (emitted : Target × Option RepositoryInputGroup) (canonical : String) : Prop :=
  ∀ name ∈ lowering.nodeNames canonical, ¬ left name →
    emittedLabel emitted ≠ some (externalLabel name) →
    externalLabel name ∈ materializedInputs emitted

/-- A node reaches what its record depends on. -/
theorem reaches_nodeTarget {rule : Rule} {canonical dependency apparent : String}
    (h : ∀ name ∈ lowering.nodeNames dependency,
      name ∈ lowering.ownDependencies repositories canonical ∨
        ∃ extension names, lowering.spokesOf repositories canonical = some (extension, names) ∧
          name ∈ names) :
    lowering.Reaches (fun _ => False) (nodeTarget rule
      (lowering.dependenciesAndGroup repositories canonical).1
      (lowering.dependenciesAndGroup repositories canonical).2 apparent) dependency := by
  intro name hname _ hself
  refine mem_inputs_nodeTarget.mpr ⟨name, mem_dependencies (h name hname), ?_, rfl⟩
  rintro rfl
  exact hself (emittedLabel_nodeTarget _ _ _ _)

/-- A view reaches what its record depends on, without the repositories of the extension. -/
theorem reaches_view {imported : StringSet} (himported : lowering.extensionEdges = some imported)
    {rule : Rule} {canonical dependency node extension : String} {repos : StringSet}
    (hrepos : (extension, repos) ∈ lowering.extensionsOf repositories canonical)
    (h : ∀ name ∈ lowering.nodeNames dependency,
      name ∈ lowering.ownDependencies repositories canonical) :
    lowering.Reaches (lowering.ExtensionNode repositories extension)
      (repositoryTarget rule node
        (setOf ((lowering.dependenciesAndGroup repositories canonical).1.toList.filter
          fun name => !repos.contains name)), none) dependency := by
  intro name hname hleft hself
  refine mem_inputs_repositoryTarget.mpr ⟨name, ?_, ?_, rfl⟩
  · rw [mem_setOf, List.mem_filter, Std.ExtTreeSet.mem_toList]
    refine ⟨mem_dependencies_of_own (h name hname), ?_⟩
    rw [Bool.not_eq_true', ← Bool.not_eq_true, Std.ExtTreeSet.contains_iff_mem]
    intro hmem
    rw [extensionsOf] at hrepos
    cases hextensions : (lowering.moduleExtensionRepos repositories)[canonical]? with
    | none => simp [hextensions] at hrepos
    | some extensions =>
        rw [hextensions, Option.map_some, Option.getD_some,
          Std.ExtTreeMap.mem_toList_iff_getElem?_eq_some] at hrepos
        have hat : name ∈ setAt (((lowering.moduleExtensionRepos repositories)[canonical]?).getD ∅)
            extension := by
          simpa [setAt, hextensions, hrepos] using hmem
        obtain ⟨repository, hrepository, husage, -, hnamed⟩ :=
          (mem_moduleExtensionRepos himported canonical extension name).mp hat
        exact hleft ⟨repository, hrepository, husage, hnamed⟩
  · rintro rfl
    exact hself rfl

/-- What the module that owns an extension depends on. -/
theorem mem_ownDependencies_of_owner {imported : StringSet}
    (himported : lowering.extensionEdges = some imported)
    (hexemptions : lowering.labelOnly.ownerExemptions = ∅) {module : String}
    {generated : Repository} (hgenerated : generated ∈ repositories) {extension hash : String}
    (hextension : extensionUsagePrefix generated.canonical = some extension)
    (howner : extensionRepoOwner extension (lowering.moduleDefinitions repositories) =
      some (module, hash)) (hne : module ≠ "") {name : String}
    (hname : name ∈ lowering.nodeNames generated.canonical) :
    name ∈ lowering.ownDependencies repositories module := by
  refine (mem_ownDependencies _ _).mpr (.inr ⟨extension, ?_⟩)
  refine (mem_moduleExtensionRepos himported _ _ _).mpr
    ⟨generated, hgenerated, hextension, ?_, hname⟩
  rw [owner, howner, Option.map_some, hexemptions]
  simp [Option.filter, hne]

/-- What an imported repository of an extension depends on. -/
theorem mem_spokesOf_of_hidden {imported : StringSet}
    (himported : lowering.extensionEdges = some imported) {hub : String}
    (hhub : imported.contains hub = true) {spoke : Repository} (hspoke : spoke ∈ repositories)
    (hhidden : imported.contains spoke.canonical = false) {extension : String}
    (hextension : extensionUsagePrefix hub = some extension)
    (hextension' : extensionUsagePrefix spoke.canonical = some extension) {name : String}
    (hname : name ∈ lowering.nodeNames spoke.canonical) :
    ∃ names, lowering.spokesOf repositories hub = some (extension, names) ∧ name ∈ names := by
  have hmem : name ∈ setAt (lowering.extensionSpokes repositories) extension :=
    (mem_extensionSpokes himported extension name).mpr
      ⟨spoke, hspoke, hextension', hhidden, hname⟩
  cases hnames : (lowering.extensionSpokes repositories)[extension]? with
  | none => simp [setAt, hnames] at hmem
  | some names =>
      refine ⟨names, ?_, by simpa [setAt, hnames] using hmem⟩
      rw [spokesOf, hextension, himported]
      simp [hhub, hnames]

/-- Without exemptions every target emitted for the module that owns an extension, unless that is
the main repository, has every repository of the extension among its inputs, and there is one for
each name of the module; a view only leaves out the repositories of its own extension. Every target
emitted for an imported repository of an extension has the hidden ones among its inputs. -/
theorem generated_repositories_reachable {imported : StringSet}
    (himported : lowering.extensionEdges = some imported)
    (hexemptions : lowering.labelOnly.ownerExemptions = ∅) :
    (∀ module ∈ repositories, ∀ generated ∈ repositories, ∀ extension hash,
      extensionUsagePrefix generated.canonical = some extension →
      extensionRepoOwner extension (lowering.moduleDefinitions repositories) =
        some (module.canonical, hash) → module.canonical ≠ "" →
      (∀ apparent ∈ lowering.nodeNames module.canonical,
        ∃ emitted ∈ lowering.lowerRepositories repositories,
          emittedLabel emitted = some (externalLabel apparent) ∧
          lowering.Reaches (fun _ => False) emitted generated.canonical) ∧
      ∀ emitted ∈ lowering.lowerRepository repositories module,
        lowering.Reaches (fun _ => False) emitted generated.canonical ∨
        ∃ apparent ∈ lowering.nodeNames module.canonical,
          ∃ view ∈ lowering.labelOnly.siblingExtensions,
            emittedLabel emitted = some (externalLabel (extensionViewNode apparent view)) ∧
            lowering.Reaches (lowering.ExtensionNode repositories view) emitted
              generated.canonical) ∧
    (∀ hub ∈ repositories, imported.contains hub.canonical = true →
      ∀ spoke ∈ repositories, imported.contains spoke.canonical = false → ∀ extension,
      extensionUsagePrefix hub.canonical = some extension →
      extensionUsagePrefix spoke.canonical = some extension →
      (∀ apparent ∈ lowering.nodeNames hub.canonical,
        ∃ emitted ∈ lowering.lowerRepository repositories hub,
          emittedLabel emitted = some (externalLabel apparent)) ∧
      ∀ emitted ∈ lowering.lowerRepository repositories hub,
        lowering.Reaches (fun _ => False) emitted spoke.canonical) := by
  constructor
  · intro module hmodule generated hgenerated extension hash hextension howner hne
    obtain ⟨rule, -, hemits⟩ := lowering.mem_lowerRepository repositories module
    have hown : ∀ name ∈ lowering.nodeNames generated.canonical,
        name ∈ lowering.ownDependencies repositories module.canonical := fun name hname =>
      mem_ownDependencies_of_owner himported hexemptions hgenerated hextension howner hne hname
    constructor
    · intro apparent happarent
      exact ⟨_, List.mem_flatMap.mpr ⟨module, hmodule,
          (hemits _).mpr ⟨apparent, happarent, .inl rfl⟩⟩,
        emittedLabel_nodeTarget _ _ _ _, reaches_nodeTarget fun name hname => .inl (hown name hname)⟩
    · intro emitted hemitted
      obtain ⟨apparent, happarent, rfl | ⟨view, repos, hrepos, hsibling, rfl⟩⟩ :=
        (hemits emitted).mp hemitted
      · exact .inl (reaches_nodeTarget fun name hname => .inl (hown name hname))
      · exact .inr ⟨apparent, happarent, view, Std.ExtTreeSet.contains_iff_mem.mp hsibling, rfl,
          reaches_view himported hrepos hown⟩
  · intro hub _ hhub spoke hspoke hhidden extension hextension hextension'
    obtain ⟨rule, -, hemits⟩ := lowering.mem_lowerRepository repositories hub
    constructor
    · intro apparent happarent
      exact ⟨_, (hemits _).mpr ⟨apparent, happarent, .inl rfl⟩, emittedLabel_nodeTarget _ _ _ _⟩
    · intro emitted hemitted
      obtain ⟨apparent, happarent, rfl | ⟨view, repos, hrepos, -, rfl⟩⟩ :=
        (hemits emitted).mp hemitted
      · refine reaches_nodeTarget fun name hname => .inr ⟨extension, ?_⟩
        exact mem_spokesOf_of_hidden himported hhub hspoke hhidden hextension hextension' hname
      · have hmodule := isExtensionRepo_of_extensionsOf hrepos
        rw [isExtensionRepo_of_usagePrefix hextension] at hmodule
        cases hmodule

/-! ## Names that clash with views -/

/-- A record without attributes. -/
def bareRecord (canonical : String) : Repository :=
  { canonicalName := some canonical }

/-- Three modules, the first with an extension that generates one repository. -/
def threeModules : List Repository :=
  [bareRecord "m+", bareRecord "d+", bareRecord "r+", bareRecord "m++e+s"]

/-- The first module depends on the second and that on the third, whose apparent name is given.
The extension of the first is label-only, so that it has a view `m%m++e`. -/
def threeModulesNaming (third : String) : Lowering where
  reader := ⟨fun repository => (repository, {}), fun _ _ => "definition"⟩
  canonicalToApparent := ((((∅ : StringMap (List String)).insert "m+" ["m"]).insert "d+" ["d"]).insert
    "r+" [third]).insert "m++e+s" ["s"]
  moduleEdges := ((∅ : StringMap StringSet).insert "m" (setOf ["d"])).insert "d" (setOf ["r"])
  extensionEdges := some ∅
  labelOnly := { siblingExtensions := setOf ["m++e"] }

theorem threeModules_moduleEdge {third module dependency : String}
    (h : (threeModulesNaming third).ModuleEdge module dependency) :
    (module = "m" ∧ dependency = "d") ∨ (module = "d" ∧ dependency = "r") := by
  obtain ⟨dependencies, hdependencies, hmem⟩ := h
  simp only [threeModulesNaming, Std.ExtTreeMap.getElem?_insert] at hdependencies
  split_ifs at hdependencies with hd hm
  · cases hdependencies
    rw [compare_eq_iff_eq] at hd
    exact .inr ⟨hd.symm, by simpa [mem_setOf] using hmem⟩
  · cases hdependencies
    rw [compare_eq_iff_eq] at hm
    exact .inl ⟨hm.symm, by simpa [mem_setOf] using hmem⟩
  · simp at hdependencies

theorem threeModules_acyclic (third module : String) :
    ¬ Relation.TransGen (threeModulesNaming third).ModuleEdge module module := by
  have hpath : ∀ {first last}, Relation.TransGen (threeModulesNaming third).ModuleEdge first last →
      (first = "m" ∧ last ≠ "m") ∨ (first = "d" ∧ last = "r") := by
    intro first last h
    induction h with
    | single hedge =>
        rcases threeModules_moduleEdge hedge with ⟨rfl, rfl⟩ | ⟨rfl, rfl⟩
        · exact .inl ⟨rfl, by decide⟩
        · exact .inr ⟨rfl, rfl⟩
    | tail _ hedge ih =>
        rcases threeModules_moduleEdge hedge with ⟨rfl, rfl⟩ | ⟨rfl, rfl⟩
        · rcases ih with ⟨-, hne⟩ | ⟨-, heq⟩
          · exact absurd rfl hne
          · exact absurd heq (by decide)
        · rcases ih with ⟨rfl, -⟩ | ⟨-, heq⟩
          · exact .inl ⟨rfl, by decide⟩
          · exact absurd heq (by decide)
  intro hcycle
  rcases hpath hcycle with ⟨rfl, hne⟩ | ⟨rfl, heq⟩
  · exact hne rfl
  · exact absurd heq (by decide)

theorem lowerRepositories_acyclic_threeModules :
    ¬ Relation.TransGen (EmittedEdge (threeModulesNaming "r") threeModules) "//external:m"
      "//external:m" := by
  apply lowerRepositories_acyclic (threeModules_acyclic "r")
  constructor
  · decide +kernel
  · intro r hr r' hr' name hname extension hextension
    obtain rfl : extension = "m++e" := by
      simpa [threeModulesNaming, mem_setOf] using hextension
    revert hname
    revert name
    revert hr'
    revert r'
    revert hr
    revert r
    decide +kernel

instance (lowering : Lowering) (repositories : List Repository) (label input : String) :
    Decidable (EmittedEdge lowering repositories label input) :=
  inferInstanceAs (Decidable (∃ emitted ∈ lowering.lowerRepositories repositories,
    emittedLabel emitted = some label ∧ input ∈ materializedInputs emitted))

/-- A third module whose apparent name is the name of the view: the view depends on the second
module, and that on the third. -/
theorem lowerRepositories_cyclic_through_view :
    (∀ r ∈ threeModules, ∀ r' ∈ threeModules,
      ∀ name ∈ (threeModulesNaming "m%m++e").nodeNames r.canonical,
        name ∈ (threeModulesNaming "m%m++e").nodeNames r'.canonical →
          r.canonical = r'.canonical) ∧
      (∀ module, ¬ Relation.TransGen (threeModulesNaming "m%m++e").ModuleEdge module module) ∧
      Relation.TransGen (EmittedEdge (threeModulesNaming "m%m++e") threeModules)
        "//external:m%m++e" "//external:m%m++e" := by
  refine ⟨by decide +kernel, threeModules_acyclic _, ?_⟩
  exact .tail (.single (by decide +kernel : EmittedEdge _ _ "//external:m%m++e" "//external:d"))
    (by decide +kernel)

theorem generated_repository_reachable_threeModules :
    ∃ emitted ∈ (threeModulesNaming "r").lowerRepositories threeModules,
      emittedLabel emitted = some (externalLabel "m") ∧
      (threeModulesNaming "r").Reaches (fun _ => False) emitted "m++e+s" :=
  ((generated_repositories_reachable rfl rfl).1 (bareRecord "m+") (by decide)
    (bareRecord "m++e+s") (by decide) "m++e" "definition" (by decide +kernel) (by decide +kernel)
    (by decide)).1 "m" (by decide +kernel)

/-- The main repository, with an extension of its own that generates one repository. -/
def rootExtension : Lowering where
  reader := ⟨fun repository => (repository, {}), fun _ _ => "definition"⟩
  canonicalToApparent := ∅
  moduleEdges := ∅
  extensionEdges := some ∅
  labelOnly := {}

/-- The main repository owns the extension, and its node does not depend on what it generates. A
view of a module does not depend on what the extension generates either. -/
theorem generated_repository_unreachable_from_root :
    (extensionUsagePrefix "+e+s" = some "+e" ∧
      extensionRepoOwner "+e" (rootExtension.moduleDefinitions [bareRecord "", bareRecord "+e+s"]) =
        some ("", "definition") ∧
      ∀ emitted ∈ rootExtension.lowerRepository [bareRecord "", bareRecord "+e+s"] (bareRecord ""),
        externalLabel "+e+s" ∉ materializedInputs emitted) ∧
    ∃ emitted ∈ (threeModulesNaming "r").lowerRepository threeModules (bareRecord "m+"),
      externalLabel "s" ∉ materializedInputs emitted := by
  refine ⟨⟨by decide +kernel, by decide +kernel, by decide +kernel⟩, by decide +kernel⟩

end Lowering

end BazelDiff
