/-
# Repositories as targets

`bazel mod` describes the repositories of a workspace, and each becomes one target
`//external:<name>` for every name the root module knows it by. In query mode edges
stand in for what a query cannot see: a module depends on every repository its
extensions generate, and an imported repository of an extension depends on the siblings
nobody imports.
-/

import BazelDiff.Hash.Inputs

namespace BazelDiff

open Text

/-- A repository as `bazel mod show_repo` describes it. -/
structure Repository where
  canonicalName : Option String := none
  repoRuleName : Option String := none
  attributes : List Attribute := []
  deriving DecidableEq

/-- The canonical name, which is empty when none is given. -/
def Repository.canonical (repository : Repository) : String :=
  repository.canonicalName.getD ""

/-- The hashes of what a repository reads from the workspace. -/
structure RepositoryFiles where
  treeHash : Option String := none
  inputsHash : Option String := none
  deriving DecidableEq

/-- How a repository is read from the workspace: its attributes are rewritten and the files it
names are hashed, and both make up the hash of its definition. -/
structure RepositoryReader where
  prepare : Repository → Repository × RepositoryFiles
  definitionHash : Repository → RepositoryFiles → String

structure LabelOnlyRepositories where
  siblingExtensions : StringSet := ∅
  ownerExemptions : StringSet := ∅

/-- The name of a module, from a canonical name with one separator. -/
def moduleName (canonical : String) : Option String :=
  if canonical.toList.count '+' = 1 then (split '+' canonical).head? else none

/-- The texts before each separator of a usage prefix, shortest first. -/
def ownerCandidates (usage : String) : List String :=
  ((List.range usage.toList.length).filter fun i => usage.toList[i]? = some '+').map fun i =>
    String.ofList (usage.toList.take i)

/-- The defining module of an extension usage, with its definition hash. -/
def extensionRepoOwner (usage : String) (moduleDefinitions : StringMap String) :
    Option (String × String) :=
  (ownerCandidates usage).findSome? fun module =>
    (moduleDefinitions[module]?).map fun hash => (module, hash)

/-- The attributes a repository's rule gains. -/
def addedAttribute (name : String) (value : Option String) : List Attribute :=
  (value.map fun value => { name := name, stringValue := some value }).toList

def repositoryRule (repository : Repository) (files : RepositoryFiles)
    (ownerDefinitionHash : Option String) : Rule :=
  { name := ""
    ruleClass := (repository.repoRuleName.filter (· ≠ "")).getD "bzlmod_repo"
    attributes := repository.attributes ++
      addedAttribute "_bazel_diff_content_hash" files.treeHash ++
      addedAttribute "_bazel_diff_local_inputs_hash" files.inputsHash ++
      addedAttribute "_bazel_diff_module_hash" ownerDefinitionHash }

def externalLabel (node : String) : String :=
  "//external:" ++ node

theorem externalLabel_injective : Function.Injective externalLabel := by
  intro name name' h
  have hchars := congrArg String.toList h
  simp only [externalLabel, String.toList_append, List.append_cancel_left_eq] at hchars
  exact String.toList_inj.mp hchars

/-- The nodes of repositories are ordered by the names of the repositories. -/
theorem externalLabel_lt {name name' : String} (h : name < name') :
    externalLabel name < externalLabel name' := by
  rw [externalLabel, externalLabel]
  rw [String.lt_iff_toList_lt] at *
  rw [String.toList_append, String.toList_append]
  exact List.append_left_lt h

/-- The target of one node: its inputs are its dependencies other than itself. -/
def repositoryTarget (rule : Rule) (apparent : String) (dependencies : StringSet) : Target :=
  { type := .rule
    rule := some { rule with
      name := externalLabel apparent
      ruleInput := (dependencies.toList.filter (· ≠ apparent)).map externalLabel } }

/-- Everything the lowering of one record looks up. -/
structure Lowering where
  reader : RepositoryReader
  canonicalToApparent : StringMap (List String)
  moduleEdges : StringMap StringSet
  /-- The imported repositories of extensions, when edges stand in for them. -/
  extensionEdges : Option StringSet
  labelOnly : LabelOnlyRepositories

namespace Lowering

variable (lowering : Lowering) (repositories : List Repository)

/-- The names of a repository's nodes. One the root cannot see keeps its canonical name. -/
def nodeNames (canonical : String) : List String :=
  (lowering.canonicalToApparent[canonical]?).getD [canonical]

/-- Modules by name, a later record over an earlier one. -/
def moduleToCanonical : StringMap String :=
  repositories.foldl
    (fun modules repository =>
      match repository.canonicalName.bind fun canonical =>
          (moduleName canonical).map fun module => (module, canonical) with
      | some (module, canonical) => modules.insert module canonical
      | none => modules)
    ∅

/-- The definition hashes of the repositories no extension generated. -/
def moduleDefinitions : StringMap String :=
  repositories.foldl
    (fun definitions repository =>
      match repository.canonicalName.filter fun name => !isExtensionRepo name with
      | some name =>
          let (prepared, files) := lowering.reader.prepare repository
          definitions.insert name (lowering.reader.definitionHash prepared files)
      | none => definitions)
    ∅

/-- The module a generated repository is an input of. -/
def owner (canonical extension : String) : Option String :=
  ((extensionRepoOwner extension (lowering.moduleDefinitions repositories)).map (·.1)).filter
    fun module => module ≠ "" ∧ ¬ lowering.labelOnly.ownerExemptions.contains canonical

/-- Add names to the set of a key. -/
def extendNames (sets : StringMap StringSet) (key : String) (names : List String) :
    StringMap StringSet :=
  sets.alter key fun set => some (names.foldl (fun set name => set.insert name) (set.getD ∅))

/-- The repositories each module's extensions generate, by extension. -/
def moduleExtensionRepos : StringMap (StringMap StringSet) :=
  match lowering.extensionEdges with
  | none => ∅
  | some _ =>
      repositories.foldl
        (fun modules repository =>
          match (extensionUsagePrefix repository.canonical).bind fun extension =>
              (lowering.owner repositories repository.canonical extension).map fun module =>
                (module, extension) with
          | some (module, extension) =>
              modules.alter module fun extensions =>
                some (extendNames (extensions.getD ∅) extension
                  (lowering.nodeNames repository.canonical))
          | none => modules)
        ∅

/-- The repositories of each extension usage that nobody imports. -/
def extensionSpokes : StringMap StringSet :=
  match lowering.extensionEdges with
  | none => ∅
  | some imported =>
      repositories.foldl
        (fun spokes repository =>
          match extensionUsagePrefix repository.canonical with
          | some extension =>
              if imported.contains repository.canonical then spokes
              else extendNames spokes extension (lowering.nodeNames repository.canonical)
          | none => spokes)
        ∅

/-- The extensions of a module with their repositories. -/
def extensionsOf (canonical : String) : List (String × StringSet) :=
  (((lowering.moduleExtensionRepos repositories)[canonical]?).map (·.toList)).getD []

/-- A set with the elements of a list. -/
def setOf (names : List String) : StringSet :=
  names.foldl (fun set name => set.insert name) ∅

/-- The modules a module depends on, by their nodes, and the repositories of its extensions. -/
def ownDependencies (canonical : String) : StringSet :=
  let modules := (((moduleName canonical).bind (lowering.moduleEdges[·]?)).map (·.toList)).getD []
  setOf (((modules.filterMap ((moduleToCanonical repositories)[·]?)).flatMap lowering.nodeNames) ++
    (lowering.extensionsOf repositories canonical).flatMap (·.2.toList))

/-- The hidden siblings of an imported repository. -/
def spokesOf (canonical : String) : Option (String × StringSet) := do
  let extension ← extensionUsagePrefix canonical
  let imported ← lowering.extensionEdges
  if !imported.contains canonical then none
  ((lowering.extensionSpokes repositories)[extension]?).map fun names => (extension, names)

/-- All dependencies of a record, and the group of hidden siblings when they are all there is. -/
def dependenciesAndGroup (canonical : String) : StringSet × Option (String × StringSet) :=
  let own := lowering.ownDependencies repositories canonical
  let spokes := lowering.spokesOf repositories canonical
  if own.isEmpty then (own, spokes)
  else
    (((spokes.map (·.2.toList)).getD []).foldl (fun set name => set.insert name) own, none)

/-- The target of one node with the inputs it shares with other nodes, which are the hidden
siblings of its extension unless it is one of them. -/
def nodeTarget (rule : Rule) (dependencies : StringSet) (group : Option (String × StringSet))
    (apparent : String) : Target × Option RepositoryInputGroup :=
  match group with
  | some (extension, names) =>
      if !names.contains apparent then
        (repositoryTarget rule apparent ∅,
          some ⟨extension, names.toList.map externalLabel⟩)
      else (repositoryTarget rule apparent names, none)
  | none => (repositoryTarget rule apparent dependencies, none)

/-- The views of a node for the label-only extensions of its module. -/
def viewTargets (rule : Rule) (dependencies : StringSet) (views : List (String × StringSet))
    (apparent : String) : List (Target × Option RepositoryInputGroup) :=
  views.map fun (extension, repos) =>
    (repositoryTarget rule (extensionViewNode apparent extension)
      (setOf (dependencies.toList.filter fun name => !repos.contains name)), none)

/-- The targets of one record. -/
def lowerRepository (repository : Repository) : List (Target × Option RepositoryInputGroup) :=
  let canonical := repository.canonical
  let ownerDefinitionHash := (extensionUsagePrefix canonical).bind fun extension =>
    (extensionRepoOwner extension (lowering.moduleDefinitions repositories)).map (·.2)
  let (dependencies, group) := lowering.dependenciesAndGroup repositories canonical
  let views := (lowering.extensionsOf repositories canonical).filter fun (extension, _) =>
    lowering.labelOnly.siblingExtensions.contains extension
  let (prepared, files) := lowering.reader.prepare repository
  let rule := repositoryRule prepared files ownerDefinitionHash
  (lowering.nodeNames canonical).flatMap fun apparent =>
    nodeTarget rule dependencies group apparent :: viewTargets rule dependencies views apparent

/-- `lower_repositories`: every target with the inputs it shares. -/
def lowerRepositories : List (Target × Option RepositoryInputGroup) :=
  repositories.flatMap (lowering.lowerRepository repositories)

end Lowering

/-- The inputs of an emitted target, with the shared ones. -/
def materializedInputs (emitted : Target × Option RepositoryInputGroup) : List String :=
  match emitted.2 with
  | some group => group.labels
  | none => (emitted.1.rule.map (·.ruleInput)).getD []

/-! ## What the tables hold -/

namespace Lowering

theorem mem_setOf (names : List String) (name : String) : name ∈ setOf names ↔ name ∈ names := by
  rw [setOf, mem_foldl_insert]
  simp

/-- The set of a key, empty when there is none. -/
def setAt (sets : StringMap StringSet) (key : String) : StringSet :=
  (sets[key]?).getD ∅

theorem mem_extendNames (sets : StringMap StringSet) (key : String) (names : List String)
    (k name : String) :
    name ∈ setAt (extendNames sets key names) k ↔ (k = key ∧ name ∈ names) ∨ name ∈ setAt sets k := by
  rw [setAt, extendNames, Std.ExtTreeMap.getElem?_alter]
  by_cases hkey : key = k
  · subst hkey
    simp [mem_foldl_insert, setAt, or_comm]
  · simp [hkey, Ne.symm hkey, setAt]

variable {lowering : Lowering} {repositories : List Repository}

theorem mem_extensionSpokes {imported : StringSet} (himported : lowering.extensionEdges = some imported)
    (extension name : String) :
    name ∈ setAt (lowering.extensionSpokes repositories) extension ↔
      ∃ repository ∈ repositories, extensionUsagePrefix repository.canonical = some extension ∧
        imported.contains repository.canonical = false ∧
        name ∈ lowering.nodeNames repository.canonical := by
  have hfold : ∀ (records : List Repository) (spokes : StringMap StringSet),
      name ∈ setAt (records.foldl
        (fun spokes repository =>
          match extensionUsagePrefix repository.canonical with
          | some extension =>
              if imported.contains repository.canonical then spokes
              else extendNames spokes extension (lowering.nodeNames repository.canonical)
          | none => spokes) spokes) extension ↔
      (∃ repository ∈ records, extensionUsagePrefix repository.canonical = some extension ∧
        imported.contains repository.canonical = false ∧
        name ∈ lowering.nodeNames repository.canonical) ∨ name ∈ setAt spokes extension := by
    intro records
    induction records with
    | nil => simp
    | cons repository rest ih =>
        intro spokes
        rw [List.foldl_cons, ih, List.exists_mem_cons_iff, or_assoc, or_left_comm]
        apply or_congr_right
        cases hextension : extensionUsagePrefix repository.canonical with
        | none => simp
        | some usage =>
            cases hcontains : imported.contains repository.canonical with
            | true => simp
            | false => simp [mem_extendNames, eq_comm]
  rw [extensionSpokes, himported]
  exact (hfold repositories ∅).trans (by simp [setAt])

theorem mem_moduleExtensionRepos {imported : StringSet}
    (himported : lowering.extensionEdges = some imported) (module extension name : String) :
    name ∈ setAt (((lowering.moduleExtensionRepos repositories)[module]?).getD ∅) extension ↔
      ∃ repository ∈ repositories, extensionUsagePrefix repository.canonical = some extension ∧
        lowering.owner repositories repository.canonical extension = some module ∧
        name ∈ lowering.nodeNames repository.canonical := by
  have hfold : ∀ (records : List Repository) (modules : StringMap (StringMap StringSet)),
      name ∈ setAt (((records.foldl
        (fun modules repository =>
          match (extensionUsagePrefix repository.canonical).bind fun extension =>
              (lowering.owner repositories repository.canonical extension).map fun module =>
                (module, extension) with
          | some (module, extension) =>
              modules.alter module fun extensions =>
                some (extendNames (extensions.getD ∅) extension
                  (lowering.nodeNames repository.canonical))
          | none => modules) modules)[module]?).getD ∅) extension ↔
      (∃ repository ∈ records, extensionUsagePrefix repository.canonical = some extension ∧
        lowering.owner repositories repository.canonical extension = some module ∧
        name ∈ lowering.nodeNames repository.canonical) ∨
        name ∈ setAt ((modules[module]?).getD ∅) extension := by
    intro records
    induction records with
    | nil => simp
    | cons repository rest ih =>
        intro modules
        rw [List.foldl_cons, ih, List.exists_mem_cons_iff, or_assoc, or_left_comm]
        apply or_congr_right
        cases hextension : extensionUsagePrefix repository.canonical with
        | none => simp
        | some usage =>
            cases howner : lowering.owner repositories repository.canonical usage with
            | none =>
                have hunowned : ¬ (some usage = some extension ∧
                    lowering.owner repositories repository.canonical extension = some module ∧
                    name ∈ lowering.nodeNames repository.canonical) := by
                  rintro ⟨husage, howned, -⟩
                  cases husage
                  simp [howner] at howned
                rw [or_iff_right hunowned]
                simp [howner]
            | some owned =>
                simp only [Option.bind_some, howner, Option.map_some,
                  Std.ExtTreeMap.getElem?_alter]
                by_cases hmodule : owned = module
                · subst hmodule
                  simp only [compare_eq_iff_eq, if_true, Option.getD_some, mem_extendNames]
                  apply or_congr_left
                  constructor
                  · rintro ⟨rfl, hname⟩
                    exact ⟨rfl, howner, hname⟩
                  · rintro ⟨husage, -, hname⟩
                    exact ⟨(Option.some.inj husage).symm, hname⟩
                · have hunowned : ¬ (some usage = some extension ∧
                      lowering.owner repositories repository.canonical extension = some module ∧
                      name ∈ lowering.nodeNames repository.canonical) := by
                    rintro ⟨husage, howned, -⟩
                    cases husage
                    exact hmodule (Option.some.inj (howner.symm.trans howned))
                  rw [or_iff_right hunowned]
                  simp [hmodule]
  rw [moduleExtensionRepos, himported]
  exact (hfold repositories ∅).trans (by simp [setAt])

theorem mem_moduleDefinitions {module : String}
    (h : module ∈ lowering.moduleDefinitions repositories) : isExtensionRepo module = false := by
  have hfold : ∀ (records : List Repository) (definitions : StringMap String),
      (∀ name ∈ definitions, isExtensionRepo name = false) →
      ∀ name ∈ records.foldl
        (fun definitions repository =>
          match repository.canonicalName.filter fun name => !isExtensionRepo name with
          | some name =>
              let (prepared, files) := lowering.reader.prepare repository
              definitions.insert name (lowering.reader.definitionHash prepared files)
          | none => definitions) definitions, isExtensionRepo name = false := by
    intro records
    induction records with
    | nil => exact fun _ h => h
    | cons repository rest ih =>
        intro definitions hdefinitions
        rw [List.foldl_cons]
        apply ih
        cases hname : repository.canonicalName.filter fun name => !isExtensionRepo name with
        | none => exact hdefinitions
        | some name =>
            intro found hfound
            rcases Std.ExtTreeMap.mem_insert.mp hfound with heq | hfound
            · rw [compare_eq_iff_eq] at heq
              have hmodule := (Option.filter_eq_some_iff.mp hname).2
              rw [← heq]
              simpa using hmodule
            · exact hdefinitions found hfound
  exact hfold repositories ∅ (by simp) module h

theorem isExtensionRepo_owner {canonical extension module : String}
    (h : lowering.owner repositories canonical extension = some module) :
    isExtensionRepo module = false := by
  obtain ⟨hfound, -⟩ := Option.filter_eq_some_iff.mp h
  obtain ⟨⟨found, hash⟩, howner, rfl⟩ := Option.map_eq_some_iff.mp hfound
  obtain ⟨candidate, -, hdefinition⟩ := List.exists_of_findSome?_eq_some howner
  obtain ⟨hash', hhash, hpair⟩ := Option.map_eq_some_iff.mp hdefinition
  cases hpair
  exact mem_moduleDefinitions (mem_of_getElem? hhash)

/-- Only modules have extensions of their own. -/
theorem isExtensionRepo_of_extensionsOf {canonical extension : String} {repos : StringSet}
    (h : (extension, repos) ∈ lowering.extensionsOf repositories canonical) :
    isExtensionRepo canonical = false := by
  have hfold : ∀ (records : List Repository) (modules : StringMap (StringMap StringSet)),
      (∀ module ∈ modules, isExtensionRepo module = false) →
      ∀ module ∈ records.foldl
        (fun modules repository =>
          match (extensionUsagePrefix repository.canonical).bind fun extension =>
              (lowering.owner repositories repository.canonical extension).map fun module =>
                (module, extension) with
          | some (module, extension) =>
              modules.alter module fun extensions =>
                some (extendNames (extensions.getD ∅) extension
                  (lowering.nodeNames repository.canonical))
          | none => modules) modules, isExtensionRepo module = false := by
    intro records
    induction records with
    | nil => exact fun _ h => h
    | cons repository rest ih =>
        intro modules hmodules
        rw [List.foldl_cons]
        apply ih
        cases hfound : (extensionUsagePrefix repository.canonical).bind fun extension =>
            (lowering.owner repositories repository.canonical extension).map fun module =>
              (module, extension) with
        | none => exact hmodules
        | some found =>
            obtain ⟨usage, -, hfound⟩ := Option.bind_eq_some_iff.mp hfound
            obtain ⟨owner, howner, rfl⟩ := Option.map_eq_some_iff.mp hfound
            intro module hmodule
            rcases Std.ExtTreeMap.mem_alter.mp hmodule with hmodule
            split_ifs at hmodule with heq
            · rw [compare_eq_iff_eq] at heq
              exact heq ▸ isExtensionRepo_owner howner
            · exact hmodules module hmodule
  rw [extensionsOf] at h
  cases hextensions : (lowering.moduleExtensionRepos repositories)[canonical]? with
  | none => simp [hextensions] at h
  | some extensions =>
      have hmem := mem_of_getElem? hextensions
      rw [moduleExtensionRepos] at hmem
      cases himported : lowering.extensionEdges with
      | none => simp [himported] at hmem
      | some imported =>
          rw [himported] at hmem
          exact hfold repositories ∅ (by simp) canonical hmem

theorem moduleToCanonical_eq_some {module canonical : String}
    (h : (moduleToCanonical repositories)[module]? = some canonical) :
    moduleName canonical = some module ∧
      ∃ repository ∈ repositories, repository.canonical = canonical := by
  have hfold : ∀ (records : List Repository) (modules : StringMap String),
      (∀ repository ∈ records, repository ∈ repositories) →
      (∀ module canonical, modules[module]? = some canonical → moduleName canonical = some module ∧
        ∃ repository ∈ repositories, repository.canonical = canonical) →
      ∀ module canonical, (records.foldl
        (fun modules repository =>
          match repository.canonicalName.bind fun canonical =>
              (moduleName canonical).map fun module => (module, canonical) with
          | some (module, canonical) => modules.insert module canonical
          | none => modules) modules)[module]? = some canonical →
        moduleName canonical = some module ∧
          ∃ repository ∈ repositories, repository.canonical = canonical := by
    intro records
    induction records with
    | nil => exact fun _ _ h => h
    | cons repository rest ih =>
        intro modules hrecords hmodules
        rw [List.foldl_cons]
        apply ih _ fun r hr => hrecords r (List.mem_cons_of_mem _ hr)
        cases hnamed : repository.canonicalName.bind fun canonical =>
            (moduleName canonical).map fun module => (module, canonical) with
        | none => exact hmodules
        | some named =>
            obtain ⟨name, hname, hpair⟩ := Option.bind_eq_some_iff.mp hnamed
            obtain ⟨module', hmodule', rfl⟩ := Option.map_eq_some_iff.mp hpair
            intro module canonical hfound
            rw [Std.ExtTreeMap.getElem?_insert] at hfound
            split_ifs at hfound with heq
            · rw [compare_eq_iff_eq] at heq
              cases hfound
              refine ⟨heq ▸ hmodule', repository, hrecords repository List.mem_cons_self, ?_⟩
              rw [Repository.canonical, hname]
              rfl
            · exact hmodules module canonical hfound
  exact hfold repositories ∅ (fun _ h => h) (by simp) module canonical h

/-- The dependencies a record has of its own: the nodes of the modules it depends on and, for a
module, of the repositories its extensions generate. -/
theorem mem_ownDependencies (canonical name : String) :
    name ∈ lowering.ownDependencies repositories canonical ↔
      (∃ module dependencies dependency found, moduleName canonical = some module ∧
        lowering.moduleEdges[module]? = some dependencies ∧ dependency ∈ dependencies ∧
        (moduleToCanonical repositories)[dependency]? = some found ∧
        name ∈ lowering.nodeNames found) ∨
      ∃ extension, name ∈
        setAt (((lowering.moduleExtensionRepos repositories)[canonical]?).getD ∅) extension := by
  rw [ownDependencies, mem_setOf, List.mem_append]
  apply or_congr
  · cases hmodule : moduleName canonical with
    | none => simp
    | some module =>
        cases hedges : lowering.moduleEdges[module]? with
        | none => simp [hedges]
        | some dependencies =>
            simp only [Option.bind_some, hedges, Option.map_some, Option.getD_some,
              List.mem_flatMap, List.mem_filterMap, Std.ExtTreeSet.mem_toList]
            constructor
            · rintro ⟨found, ⟨dependency, hdependency, hfound⟩, hname⟩
              exact ⟨module, dependencies, dependency, found, rfl, hedges, hdependency, hfound,
                hname⟩
            · rintro ⟨module', dependencies', dependency, found, hmodule', hedges', hdependency,
                hfound, hname⟩
              cases hmodule'
              rw [hedges] at hedges'
              cases hedges'
              exact ⟨found, ⟨dependency, hdependency, hfound⟩, hname⟩
  · rw [extensionsOf]
    cases hextensions : (lowering.moduleExtensionRepos repositories)[canonical]? with
    | none => simp [setAt]
    | some extensions =>
        simp only [Option.map_some, Option.getD_some, List.mem_flatMap, Prod.exists,
          Std.ExtTreeMap.mem_toList_iff_getElem?_eq_some, Std.ExtTreeSet.mem_toList, setAt]
        constructor
        · rintro ⟨extension, repos, hrepos, hname⟩
          exact ⟨extension, by rwa [hrepos]⟩
        · rintro ⟨extension, hname⟩
          cases hrepos : extensions[extension]? with
          | none => simp [hrepos] at hname
          | some repos => exact ⟨extension, repos, hrepos, by simpa [hrepos] using hname⟩

theorem spokes_of_group {canonical extension : String} {names : StringSet}
    (h : (lowering.dependenciesAndGroup repositories canonical).2 = some (extension, names)) :
    (lowering.extensionSpokes repositories)[extension]? = some names := by
  rw [dependenciesAndGroup] at h
  split_ifs at h
  rw [spokesOf] at h
  obtain ⟨usage, -, h⟩ := Option.bind_eq_some_iff.mp h
  obtain ⟨imported, -, h⟩ := Option.bind_eq_some_iff.mp h
  split_ifs at h
  · cases h
  · obtain ⟨found, hfound, heq⟩ := Option.map_eq_some_iff.mp h
    obtain ⟨rfl, rfl⟩ := Prod.mk.inj heq
    exact hfound

/-- A hidden sibling is a node of a repository that is listed. -/
theorem nodeNames_of_mem_extensionSpokes {extension name : String} {siblings : StringSet}
    (h : (lowering.extensionSpokes repositories)[extension]? = some siblings)
    (hname : name ∈ siblings) :
    ∃ repository ∈ repositories, name ∈ lowering.nodeNames repository.canonical := by
  cases himported : lowering.extensionEdges with
  | none => simp [extensionSpokes, himported] at h
  | some imported =>
      have hmem : name ∈ setAt (lowering.extensionSpokes repositories) extension := by
        rw [setAt, h]
        exact hname
      obtain ⟨repository, hrepository, -, -, hnode⟩ :=
        (mem_extensionSpokes himported extension name).mp hmem
      exact ⟨repository, hrepository, hnode⟩

/-- What a record is emitted as: under each of its names a node, and the views of that node. -/
theorem mem_lowerRepository (lowering : Lowering) (repositories : List Repository)
    (repository : Repository) :
    ∃ rule : Rule, rule.configuredRuleInput = [] ∧
      ∀ emitted, emitted ∈ lowering.lowerRepository repositories repository ↔
        ∃ apparent ∈ lowering.nodeNames repository.canonical,
          emitted = nodeTarget rule
            (lowering.dependenciesAndGroup repositories repository.canonical).1
            (lowering.dependenciesAndGroup repositories repository.canonical).2 apparent ∨
          ∃ extension repos,
            (extension, repos) ∈ lowering.extensionsOf repositories repository.canonical ∧
            lowering.labelOnly.siblingExtensions.contains extension = true ∧
            emitted = (repositoryTarget rule (extensionViewNode apparent extension)
              (setOf ((lowering.dependenciesAndGroup repositories
                repository.canonical).1.toList.filter fun name => !repos.contains name)), none) := by
  refine ⟨_, rfl, fun emitted => List.mem_flatMap.trans (exists_congr fun apparent =>
    and_congr_right fun _ => List.mem_cons.trans (or_congr_right ?_))⟩
  rw [viewTargets, List.mem_map]
  constructor
  · rintro ⟨⟨extension, repos⟩, hview, rfl⟩
    obtain ⟨hmem, hsibling⟩ := List.mem_filter.mp hview
    exact ⟨extension, repos, hmem, hsibling, rfl⟩
  · rintro ⟨extension, repos, hmem, hsibling, rfl⟩
    exact ⟨(extension, repos), List.mem_filter.mpr ⟨hmem, hsibling⟩, rfl⟩

/-- What shares inputs is a node that reads nothing else; it shares the hidden siblings of its
extension, of which it is none. -/
theorem exists_node_of_group {emitted : Target × Option RepositoryInputGroup}
    (h : emitted ∈ lowering.lowerRepositories repositories) {group : RepositoryInputGroup}
    (hgroup : emitted.2 = some group) :
    ∃ rule apparent names, rule.configuredRuleInput = [] ∧
      emitted.1 = repositoryTarget rule apparent ∅ ∧ apparent ∉ names ∧
      (lowering.extensionSpokes repositories)[group.extension]? = some names ∧
      group.labels = names.toList.map externalLabel := by
  obtain ⟨repository, -, h⟩ := List.mem_flatMap.mp h
  obtain ⟨rule, hconfigured, hemits⟩ := lowering.mem_lowerRepository repositories repository
  obtain ⟨apparent, -, rfl | ⟨extension, repos, -, -, rfl⟩⟩ := (hemits emitted).mp h
  · cases hshared : (lowering.dependenciesAndGroup repositories repository.canonical).2 with
    | none =>
        rw [hshared] at hgroup
        cases hgroup
    | some shared =>
        obtain ⟨extension, names⟩ := shared
        rw [hshared, nodeTarget] at hgroup
        rw [nodeTarget]
        split_ifs at hgroup ⊢ with hcontains
        obtain rfl := Option.some.inj hgroup
        refine ⟨rule, apparent, names, hconfigured, rfl, fun hmem => ?_,
          spokes_of_group hshared, rfl⟩
        simp [Std.ExtTreeSet.contains_iff_mem.mpr hmem] at hcontains
  · cases hgroup

/-- A group of shared inputs is the list of the hidden siblings of its extension. -/
theorem group_of_mem_lowerRepositories {emitted : Target × Option RepositoryInputGroup}
    (h : emitted ∈ lowering.lowerRepositories repositories) {group : RepositoryInputGroup}
    (hgroup : emitted.2 = some group) :
    ∃ names, (lowering.extensionSpokes repositories)[group.extension]? = some names ∧
      group.labels = names.toList.map externalLabel := by
  obtain ⟨-, -, names, -, -, -, hnames, hlabels⟩ := exists_node_of_group h hgroup
  exact ⟨names, hnames, hlabels⟩

/-- Hubs of one extension share one list. -/
theorem labels_of_group {emitted emitted' : Target × Option RepositoryInputGroup}
    (h : emitted ∈ lowering.lowerRepositories repositories)
    (h' : emitted' ∈ lowering.lowerRepositories repositories) {group group' : RepositoryInputGroup}
    (hgroup : emitted.2 = some group) (hgroup' : emitted'.2 = some group')
    (hextension : group.extension = group'.extension) : group.labels = group'.labels := by
  obtain ⟨names, hnames, hlabels⟩ := group_of_mem_lowerRepositories h hgroup
  obtain ⟨names', hnames', hlabels'⟩ := group_of_mem_lowerRepositories h' hgroup'
  rw [hextension, hnames'] at hnames
  rw [hlabels, hlabels', Option.some.inj hnames]

end Lowering

end BazelDiff
