/-
# The repositories of an isolated root

With an isolated root, one repository the root module imports stands for everything its usage of
a module extension generates. Before that is relied on, the catalog of repositories has to show
that the usage is the root's own and complete, that nothing else of it is imported, and that no
repository outside of it reads one of its files. The first thing that does not fit refuses the
root.
-/

import BazelDiff.Hash.Inputs
import BazelDiff.Lib.Acceptance
import BazelDiff.Partial.Loading
import BazelDiff.Query.ScopedCoverage

namespace BazelDiff

open Outcome Text

/-! ## The catalog -/

/-- `attribute::Discriminator`. -/
inductive AttributeKind
  | integer
  | string
  | label
  | output
  | stringList
  | labelList
  | outputList
  | distributionSet
  | license
  | stringDict
  | filesetEntryList
  | labelListDict
  | stringListDict
  | boolean
  | tristate
  | integerList
  | deprecatedStringDictUnary
  | unknown
  | labelDictUnary
  | selectorList
  | labelKeyedStringDict
  deriving DecidableEq

namespace AttributeKind

/-- The kinds whose values are not read, though they may name targets. -/
def unsupported : AttributeKind → Option String
  | .unknown => some "Unknown"
  | .selectorList => some "SelectorList"
  | .filesetEntryList => some "FilesetEntryList"
  | .license => some "License"
  | .output => some "Output"
  | .outputList => some "OutputList"
  | _ => none

/-- The kinds whose values are labels. -/
def isLabel : AttributeKind → Bool
  | .label | .labelList | .labelListDict | .labelDictUnary | .labelKeyedStringDict => true
  | _ => false

end AttributeKind

/-- An attribute of a repository, with its type. -/
structure CatalogAttribute extends Attribute where
  kind : AttributeKind
  /-- What the message has beside the fields of the protocol. -/
  unknownFields : List UInt8 := []
  deriving DecidableEq

/-- A repository as the catalog describes it. -/
structure CatalogRecord where
  canonicalName : Option String := none
  originalName : Option String := none
  attributes : List CatalogAttribute := []
  deriving DecidableEq

def CatalogRecord.displayName (record : CatalogRecord) : String :=
  (record.canonicalName.or record.originalName).getD "<unnamed>"

/-- Canonical names of the repositories module extensions generate. -/
structure ExtensionRepositories where
  /-- The ones some module imports. -/
  imported : StringSet := ∅
  /-- Every repository of every extension with an imported one. -/
  generated : StringSet := ∅

/-- The scope of an isolated root. -/
structure IsolatedRoot extends IsolatedRepoScope where
  anchor : String
  /-- The labels its repositories read. -/
  repositoryInputs : StringSet := ∅

/-! ## The root's own usage -/

/-- Cut `s` at the last occurrence of `sep`, which is dropped. -/
def rsplitOnceText (sep s : String) : Option (String × String) :=
  (cutList sep.toList.reverse s.toList.reverse).map fun (after, before) =>
    (String.ofList before.reverse, String.ofList after.reverse)

/-- The name the root module exports an isolated usage under. -/
def rootExport (usage : String) : Option String := do
  let (ownerAndSymbol, name) ← rsplitOnceText "+++" usage
  let (_, symbol) ← rsplitOnceText "+_" ownerAndSymbol
  if symbol ≠ "" ∧ '+' ∉ symbol.toList ∧ name ≠ "" ∧ '+' ∉ name.toList then some name else none

def refuseIf (condition : Bool) (message : String) : Result Unit :=
  if condition then bail message else .ok ()

-- How an optional name is printed in a message.
variable (debug : Option String → String)

/-- The name of a record, if it is one of the usage. The original name must be its last part. -/
def usageName (group : String) (row : CatalogRecord) : Result (Option String) :=
  match row.canonicalName with
  | none => .ok none
  | some name =>
      match rsplitOnce '+' name with
      | none => .ok none
      | some (usage, original) =>
          if usage ≠ group then .ok none
          else do
            refuseIf (original = "") ("repository " ++ name ++ " has an empty original name")
            refuseIf (row.originalName ≠ some original)
              ("repository " ++ name ++ " reported original name " ++ debug row.originalName ++
                ", expected " ++ original)
            return some name

/-- One record of the catalog: a name of the usage is seen once. -/
def seeRecord (group : String) (seen : StringSet) (row : CatalogRecord) : Result StringSet := do
  match ← usageName debug group row with
  | none => return seen
  | some name => do
      refuseIf (seen.contains name)
        ("repository " ++ name ++ " appears more than once in the catalog")
      return seen.insert name

/-- An imported repository of another usage that is exported under the same name. -/
def checkImported (group usage imported : String) : Result Unit :=
  match extensionUsagePrefix imported with
  | none => .ok ()
  | some candidate =>
      refuseIf (candidate ≠ group && rootExport candidate = some usage)
        ("root-isolated usage name " ++ usage ++ " conflicts with imported repository " ++ imported)

/-- The usage of the extension the hub belongs to, which has to be the root's own and to be listed
in full. -/
def effectiveRootGroup (hub : String) (survey : ExtensionRepositories)
    (repositories : List CatalogRecord) : Result String := do
  let group ← okOr ("mapped repository " ++ hub ++ " is not an extension repository")
    (extensionUsagePrefix hub)
  let usage ← okOr ("mapped repository " ++ hub ++ " is not a root-isolated extension usage")
    (rootExport group)
  refuseIf (!survey.imported.contains hub) ("mapped repository " ++ hub ++ " is not imported")
  survey.imported.toList.forM (checkImported group usage)
  let seen ← repositories.foldlM (seeRecord debug group) ∅
  refuseIf (!seen.contains hub) ("mapped root repository " ++ hub ++ " has no catalog record")
  survey.generated.toList.forM fun name =>
    refuseIf (extensionUsagePrefix name = some group && !seen.contains name)
      ("generated repository " ++ name ++ " has no catalog record")
  seen.toList.forM fun name =>
    refuseIf (!survey.generated.contains name)
      ("catalog repository " ++ name ++ " is absent from the generated inventory")
  return group

/-! ## What the repositories read -/

/-- What follows the `@@` of a canonical label among the values of an attribute. A label without a
repository is in the main one. -/
def addressed (value : String) : Option String :=
  match stripPrefix "@@" value with
  | some label => some label
  | none => if hasPrefix "//" value then some value else none

/-- The label a value adds to what the members read. -/
def labelInput (members : StringSet) (repo : CatalogRecord) (attr : String) (value : String) :
    Result (Option String) := do
  let reader ← okOr ("repository " ++ repo.displayName ++ " attribute " ++ attr ++
    " has no canonical repository name") repo.canonicalName
  match addressed value with
  | some label => do
      let (target, _) ← okOr ("repository " ++ reader ++ " attribute " ++ attr ++
        " has invalid label @@" ++ label) (splitOnce "//" label)
      if members.contains reader then return some ("@@" ++ label)
      else do
        refuseIf (members.contains target)
          ("outside repository " ++ reader ++ " attribute " ++ attr ++ " reads @@" ++ label)
        return none
  | none => do
      refuseIf (hasPrefix "@" value)
        ("repository " ++ reader ++ " attribute " ++ attr ++ " has unresolved label " ++ value)
      return none

def attributeInputs (members : StringSet) (repo : CatalogRecord) (attr : CatalogAttribute) :
    Result (List String) := do
  refuseIf (attr.unknownFields ≠ [])
    ("repository " ++ repo.displayName ++ " attribute " ++ attr.name ++
      " has unknown protobuf fields")
  refuseIf attr.kind.unsupported.isSome
    ("repository " ++ repo.displayName ++ " attribute " ++ attr.name ++
      " has unsupported type " ++ attr.kind.unsupported.getD "")
  if attr.kind.isLabel then
    (attributeLabelValues attr.toAttribute).filterMapM (labelInput members repo attr.name)
  else return []

def recordInputs (members : StringSet) (repo : CatalogRecord) : Result (List String) := do
  let inputs ← repo.attributes.mapM (attributeInputs members repo)
  return inputs.flatten

/-! ## The root -/

/-- The characters an apparent repository name does not have. -/
def notApparent : List Char :=
  ['@', '/', '%', '+', ':']

/-- Bind the effective root import to one extension usage. The mapping is that of the root module,
if it could be read. -/
def resolveIsolatedRoot (root : String) (rootMapping : Option (StringMap String))
    (survey : ExtensionRepositories) (repositories : List CatalogRecord) :
    Result IsolatedRoot := do
  let name ← okOr "expected an apparent repository name beginning with @" (stripPrefix "@" root)
  refuseIf (name = "" || name.toList.any (notApparent.contains ·))
    "expected one apparent repository name without a path or canonical prefix"
  let mapping ← okOr "invalid root repository mapping" rootMapping
  let hub ← okOr "root import is missing from the repository mapping" mapping[name]?
  let group ← effectiveRootGroup debug hub survey repositories
  survey.imported.toList.forM fun other =>
    refuseIf (other ≠ hub && extensionUsagePrefix other = some group)
      ("extra imported repository " ++ other ++ " belongs to the isolated usage")
  let members := survey.generated.filter fun repo => extensionUsagePrefix repo = some group
  let inputs ← repositories.mapM (recordInputs members)
  return {
    anchor := name
    aliases := mapping
    members := members
    repositoryInputs := inputs.flatten.foldl (·.insert ·) ∅ }

/-! ## What is accepted -/

/-- The name of a record of the usage, with its last part. -/
def usageRecord (group : String) (row : CatalogRecord) : Option (String × String) := do
  let name ← row.canonicalName
  let (usage, original) ← rsplitOnce '+' name
  if usage = group then some (name, original) else none

/-- The names the catalog lists under the usage. -/
def usageNames (group : String) (catalog : List CatalogRecord) : List String :=
  catalog.filterMap fun row => (usageRecord group row).map (·.1)

/-- The original name of a record of the usage is the last part of its name. -/
def WellNamed (group : String) (row : CatalogRecord) : Prop :=
  ∀ name original, usageRecord group row = some (name, original) →
    original ≠ "" ∧ row.originalName = some original

/-- The root module's own usage, listed in full and imported through one repository. -/
structure RootUsage (survey : ExtensionRepositories) (catalog : List CatalogRecord)
    (hub group usage : String) : Prop where
  extension : extensionUsagePrefix hub = some group
  exported : rootExport group = some usage
  imported : ∀ repo, repo ∈ survey.imported ∧ extensionUsagePrefix repo = some group ↔ repo = hub
  only : ∀ repo ∈ survey.imported, ∀ other, extensionUsagePrefix repo = some other →
    rootExport other = some usage → other = group
  named : ∀ row ∈ catalog, WellNamed group row
  once : (usageNames group catalog).Nodup
  listed : ∀ name, name ∈ usageNames group catalog ↔
    name ∈ survey.generated ∧ extensionUsagePrefix name = some group
  hub_listed : hub ∈ usageNames group catalog

namespace CatalogRecord

/-- The record reads a label, given without its `@@`. -/
def Reads (repo : CatalogRecord) (label : String) : Prop :=
  ∃ attr ∈ repo.attributes, attr.kind.isLabel = true ∧
    ∃ value ∈ attributeLabelValues attr.toAttribute, addressed value = some label

/-- It can be told which labels the record reads. -/
structure Readable (repo : CatalogRecord) : Prop where
  known : ∀ attr ∈ repo.attributes, attr.unknownFields = []
  supported : ∀ attr ∈ repo.attributes, attr.kind.unsupported = none
  named : ∀ attr ∈ repo.attributes, attr.kind.isLabel = true →
    attributeLabelValues attr.toAttribute ≠ [] → repo.canonicalName.isSome = true
  resolved : ∀ attr ∈ repo.attributes, attr.kind.isLabel = true →
    ∀ value ∈ attributeLabelValues attr.toAttribute, addressed value = none →
      hasPrefix "@" value = false
  valid : ∀ label, repo.Reads label → (splitOnce "//" label).isSome = true

/-- A record outside the members reads none of them. -/
def Spares (repo : CatalogRecord) (members : StringSet) : Prop :=
  ∀ reader, repo.canonicalName = some reader → reader ∉ members →
    ∀ label, repo.Reads label → ∀ target rest, splitOnce "//" label = some (target, rest) →
      target ∉ members

end CatalogRecord

/-- The usage of the root is isolated: its repositories are the members, what they read is known,
and nobody else reads them. -/
structure Isolates (survey : ExtensionRepositories) (catalog : List CatalogRecord)
    (scope : IsolatedRoot) (hub group usage : String) : Prop where
  root : RootUsage survey catalog hub group usage
  members : ∀ repo, repo ∈ scope.members ↔
    repo ∈ survey.generated ∧ extensionUsagePrefix repo = some group
  readable : ∀ repo ∈ catalog, repo.Readable
  closed : ∀ repo ∈ catalog, repo.Spares scope.members
  inputs : ∀ input, input ∈ scope.repositoryInputs ↔
    ∃ repo ∈ catalog, ∃ reader, repo.canonicalName = some reader ∧ reader ∈ scope.members ∧
      ∃ label, repo.Reads label ∧ input = "@@" ++ label

/-! ### Steps -/

theorem refuseIf_eq_ok {condition : Bool} {message : String} {u : Unit} :
    refuseIf condition message = .ok u ↔ condition = false := by
  cases condition with
  | true =>
      constructor
      · intro h
        cases h
      · intro h
        cases h
  | false => exact ⟨fun _ => rfl, fun _ => rfl⟩

theorem okOr_eq_ok_iff {α : Type} {message : String} {a : Option α} {b : α} :
    okOr message a = .ok b ↔ a = some b := by
  constructor
  · exact okOr_eq_ok
  · rintro rfl
    rfl

section Catalog

variable {debug : Option String → String} {group : String}

theorem usageName_eq_ok {row : CatalogRecord} {found : Option String} :
    usageName debug group row = .ok found ↔
      WellNamed group row ∧ (usageRecord group row).map (·.1) = found := by
  rw [usageName, WellNamed, usageRecord]
  cases row.canonicalName with
  | none => simp
  | some name =>
      dsimp only [Option.bind_eq_bind, Option.bind_some]
      cases rsplitOnce '+' name with
      | none => simp
      | some parts =>
          obtain ⟨usage, original⟩ := parts
          dsimp only [Option.bind_some]
          by_cases hgroup : usage = group
          · rw [if_neg (not_not.mpr hgroup), if_pos hgroup]
            simp only [bind_eq_ok_iff, refuseIf_eq_ok, pure_eq_ok_iff, exists_const,
              decide_eq_false_iff_not, not_not, Option.some.injEq, Prod.mk.injEq, Option.map_some]
            constructor
            · rintro ⟨hne, horiginal, hfound⟩
              refine ⟨?_, hfound⟩
              rintro _ _ ⟨rfl, rfl⟩
              exact ⟨hne, horiginal⟩
            · rintro ⟨hnamed, hfound⟩
              obtain ⟨hne, horiginal⟩ := hnamed _ _ ⟨rfl, rfl⟩
              exact ⟨hne, horiginal, hfound⟩
          · rw [if_pos hgroup, if_neg hgroup]
            simp

theorem seeRecord_eq_ok {seen seen' : StringSet} {row : CatalogRecord} :
    seeRecord debug group seen row = .ok seen' ↔
      WellNamed group row ∧ ((usageRecord group row = none ∧ seen = seen') ∨
        ∃ name original, usageRecord group row = some (name, original) ∧ name ∉ seen ∧
          seen.insert name = seen') := by
  rw [seeRecord]
  simp only [bind_eq_ok_iff, usageName_eq_ok]
  cases hrecord : usageRecord group row with
  | none =>
      constructor
      · rintro ⟨found, ⟨hnamed, rfl⟩, hseen⟩
        exact ⟨hnamed, Or.inl ⟨rfl, pure_eq_ok_iff.mp hseen⟩⟩
      · rintro ⟨hnamed, ⟨-, hseen⟩ | ⟨name, original, hsome, -⟩⟩
        · exact ⟨none, ⟨hnamed, rfl⟩, pure_eq_ok_iff.mpr hseen⟩
        · cases hsome
  | some record =>
      obtain ⟨name, original⟩ := record
      constructor
      · rintro ⟨found, ⟨hnamed, rfl⟩, hseen⟩
        obtain ⟨u, hfresh, hseen⟩ := bind_eq_ok_iff.mp hseen
        refine ⟨hnamed, Or.inr ⟨name, original, rfl, ?_, pure_eq_ok_iff.mp hseen⟩⟩
        rw [← Std.ExtTreeSet.contains_iff_mem, refuseIf_eq_ok.mp hfresh]
        exact Bool.false_ne_true
      · rintro ⟨hnamed, ⟨hnone, -⟩ | ⟨name', original', hsome, hfresh, hseen⟩⟩
        · cases hnone
        · cases hsome
          refine ⟨some name, ⟨hnamed, rfl⟩, bind_eq_ok_iff.mpr ⟨(), ?_, pure_eq_ok_iff.mpr hseen⟩⟩
          rw [refuseIf_eq_ok, ← Bool.not_eq_true, Std.ExtTreeSet.contains_iff_mem]
          exact hfresh

/-- The catalog passes when its records of the usage are well named and every name comes once. -/
theorem foldlM_seeRecord_eq_ok {catalog : List CatalogRecord} {seen seen' : StringSet} :
    catalog.foldlM (seeRecord debug group) seen = .ok seen' ↔
      (∀ row ∈ catalog, WellNamed group row) ∧ (usageNames group catalog).Nodup ∧
        (∀ name ∈ usageNames group catalog, name ∉ seen) ∧
        ∀ name, name ∈ seen' ↔ name ∈ seen ∨ name ∈ usageNames group catalog := by
  induction catalog generalizing seen with
  | nil =>
      rw [List.foldlM_nil, pure_eq_ok_iff]
      constructor
      · rintro rfl
        simp [usageNames]
      · rintro ⟨-, -, -, hmem⟩
        apply Std.ExtTreeSet.ext_mem
        intro name
        simpa [usageNames] using (hmem name).symm
  | cons row rest ih =>
      rw [List.foldlM_cons, bind_eq_ok_iff, List.forall_mem_cons]
      simp only [seeRecord_eq_ok, ih]
      cases hrecord : usageRecord group row with
      | none =>
          have hnames : usageNames group (row :: rest) = usageNames group rest := by
            rw [usageNames, List.filterMap_cons, hrecord]
            rfl
          rw [hnames]
          constructor
          · rintro ⟨next, ⟨hnamed, ⟨-, rfl⟩ | ⟨name, original, hsome, -⟩⟩, hrest, hnext⟩
            · exact ⟨⟨hnamed, hrest⟩, hnext⟩
            · cases hsome
          · rintro ⟨⟨hnamed, hrest⟩, hnext⟩
            exact ⟨seen, ⟨hnamed, Or.inl ⟨rfl, rfl⟩⟩, hrest, hnext⟩
      | some record =>
          obtain ⟨first, original⟩ := record
          have hnames : usageNames group (row :: rest) = first :: usageNames group rest := by
            rw [usageNames, List.filterMap_cons, hrecord]
            rfl
          have hinsert : ∀ name, name ∈ seen.insert first ↔ first = name ∨ name ∈ seen := by
            intro name
            rw [Std.ExtTreeSet.mem_insert, Std.LawfulEqOrd.compare_eq_iff_eq]
          rw [hnames, List.nodup_cons, List.forall_mem_cons]
          constructor
          · rintro ⟨next, ⟨hnamed, ⟨hnone, -⟩ | ⟨name, original', hsome, hfresh, rfl⟩⟩, hrest,
              honce, hnew, hmem⟩
            · cases hnone
            · cases hsome
              refine ⟨⟨hnamed, hrest⟩, ⟨fun hagain => ?_, honce⟩, ⟨hfresh, fun name hname => ?_⟩,
                fun name => ?_⟩
              · exact hnew first hagain ((hinsert first).mpr (Or.inl rfl))
              · exact fun hseen => hnew name hname ((hinsert name).mpr (Or.inr hseen))
              · rw [hmem name, hinsert name, List.mem_cons, eq_comm (a := first)]
                tauto
          · rintro ⟨⟨hnamed, hrest⟩, ⟨hagain, honce⟩, ⟨hfresh, hnew⟩, hmem⟩
            refine ⟨seen.insert first, ⟨hnamed, Or.inr ⟨first, original, rfl, hfresh, rfl⟩⟩, hrest,
              honce, fun name hname hseen => ?_, fun name => ?_⟩
            · rcases (hinsert name).mp hseen with rfl | hseen
              · exact hagain hname
              · exact hnew name hname hseen
            · rw [hmem name, hinsert name, List.mem_cons, eq_comm (a := first)]
              tauto

theorem checkImported_eq_ok {usage imported : String} {u : Unit} :
    checkImported group usage imported = .ok u ↔
      ∀ other, extensionUsagePrefix imported = some other → rootExport other = some usage →
        other = group := by
  rw [checkImported]
  cases extensionUsagePrefix imported with
  | none => simp
  | some candidate =>
      dsimp only
      rw [refuseIf_eq_ok, Bool.and_eq_false_iff]
      simp only [decide_eq_false_iff_not, not_not, Option.some.injEq, forall_eq']
      tauto

/-- What the catalog lists under the usage of a repository is of that usage. -/
theorem extensionUsagePrefix_of_mem {hub : String} (hhub : extensionUsagePrefix hub = some group)
    {catalog : List CatalogRecord} {name : String} (hname : name ∈ usageNames group catalog) :
    extensionUsagePrefix name = some group := by
  obtain ⟨row, -, hrow⟩ := List.mem_filterMap.mp hname
  obtain ⟨⟨listed, original⟩, hrecord, rfl⟩ := Option.map_eq_some_iff.mp hrow
  rw [usageRecord] at hrecord
  obtain ⟨name, -, hrecord⟩ := Option.bind_eq_some_iff.mp hrecord
  obtain ⟨⟨usage, last⟩, hsplit, hrecord⟩ := Option.bind_eq_some_iff.mp hrecord
  dsimp only at hrecord
  split_ifs at hrecord with hgroup
  cases hrecord
  subst hgroup
  rw [extensionUsagePrefix] at hhub
  split_ifs at hhub with hextension
  obtain ⟨⟨usage', part⟩, hhubSplit, rfl⟩ := Option.map_eq_some_iff.mp hhub
  dsimp only at *
  -- A usage prefix has a separator of its own, since the hub has two.
  have hplus : 1 ≤ usage'.toList.count '+' := by
    obtain ⟨hchars, hpart⟩ := rsplitOnce_eq_some hhubSplit
    rw [isExtensionRepo, decide_eq_true_eq, hchars, List.count_append, List.count_cons_self,
      List.count_eq_zero_of_not_mem hpart] at hextension
    omega
  have hname : isExtensionRepo listed = true := by
    obtain ⟨hchars, -⟩ := rsplitOnce_eq_some hsplit
    rw [isExtensionRepo, decide_eq_true_eq, hchars, List.count_append, List.count_cons_self]
    omega
  rw [extensionUsagePrefix, if_pos hname, hsplit]
  rfl

theorem effectiveRootGroup_eq_ok {hub found : String} {survey : ExtensionRepositories}
    {catalog : List CatalogRecord} :
    effectiveRootGroup debug hub survey catalog = .ok found ↔
      extensionUsagePrefix hub = some found ∧ ∃ usage, rootExport found = some usage ∧
        hub ∈ survey.imported ∧
        (∀ repo ∈ survey.imported, ∀ other, extensionUsagePrefix repo = some other →
          rootExport other = some usage → other = found) ∧
        (∀ row ∈ catalog, WellNamed found row) ∧ (usageNames found catalog).Nodup ∧
        (∀ name, name ∈ usageNames found catalog ↔
          name ∈ survey.generated ∧ extensionUsagePrefix name = some found) ∧
        hub ∈ usageNames found catalog := by
  rw [effectiveRootGroup]
  simp only [bind_eq_ok_iff, okOr_eq_ok_iff, refuseIf_eq_ok, forM_eq_ok_iff, checkImported_eq_ok,
    foldlM_seeRecord_eq_ok, exists_unit_ok, pure_eq_ok_iff, Bool.not_eq_false',
    Bool.and_eq_false_iff, Std.ExtTreeSet.contains_iff_mem, Std.ExtTreeSet.mem_toList,
    Std.ExtTreeSet.not_mem_empty, false_or, decide_eq_false_iff_not]
  constructor
  · rintro ⟨group, hgroup, usage, husage, hhub, honly, seen, ⟨hnamed, honce, -, hseen⟩, hlisted,
      hgenerated, hknown, rfl⟩
    refine ⟨hgroup, usage, husage, hhub, honly, hnamed, honce, fun name => ?_,
      (hseen hub).mp hlisted⟩
    constructor
    · intro hname
      exact ⟨hknown name ((hseen name).mpr hname), extensionUsagePrefix_of_mem hgroup hname⟩
    · rintro ⟨hname, hused⟩
      rcases hgenerated name hname with hother | hin
      · exact absurd hused hother
      · exact (hseen name).mp hin
  · rintro ⟨hgroup, usage, husage, hhub, honly, hnamed, honce, hlisted, hhubListed⟩
    refine ⟨found, hgroup, usage, husage, hhub, honly,
      (usageNames found catalog).foldl (·.insert ·) ∅, ⟨hnamed, honce, ?_, ?_⟩, ?_, ?_, ?_, rfl⟩
    · exact fun name _ hname => hname
    · intro name
      rw [mem_foldl_insert]
      simp
    · rw [mem_foldl_insert]
      exact Or.inr hhubListed
    · intro name hname
      rw [mem_foldl_insert]
      by_cases hgroup : extensionUsagePrefix name = some found
      · exact Or.inr (Or.inr ((hlisted name).mpr ⟨hname, hgroup⟩))
      · exact Or.inl hgroup
    · intro name hname
      rw [mem_foldl_insert] at hname
      rcases hname with hname | hname
      · exact absurd hname Std.ExtTreeSet.not_mem_empty
      · exact ((hlisted name).mp hname).1

end Catalog

/-! ### What is read -/

section Inputs

variable {members : StringSet} {repo : CatalogRecord}

theorem labelInput_eq_ok {attr value : String} {found : Option String} :
    labelInput members repo attr value = .ok found ↔
      ∃ reader, repo.canonicalName = some reader ∧
        (addressed value = none ∧ hasPrefix "@" value = false ∧ found = none ∨
          ∃ label target rest, addressed value = some label ∧
            splitOnce "//" label = some (target, rest) ∧
            (reader ∈ members ∧ found = some ("@@" ++ label) ∨
              reader ∉ members ∧ target ∉ members ∧ found = none)) := by
  rw [labelInput]
  simp only [bind_eq_ok_iff, okOr_eq_ok_iff]
  refine exists_congr fun reader => and_congr_right fun _ => ?_
  cases addressed value with
  | none =>
      simp only [bind_eq_ok_iff, refuseIf_eq_ok, pure_eq_ok_iff, exists_unit_ok]
      constructor
      · rintro ⟨hresolved, rfl⟩
        exact Or.inl ⟨trivial, hresolved, rfl⟩
      · rintro (⟨-, hresolved, rfl⟩ | ⟨label, target, rest, hlabel, -⟩)
        · exact ⟨hresolved, rfl⟩
        · cases hlabel
  | some label =>
      simp only [bind_eq_ok_iff, okOr_eq_ok_iff, Prod.exists]
      by_cases hreader : reader ∈ members
      · simp only [Std.ExtTreeSet.contains_iff_mem.mpr hreader, if_true, pure_eq_ok_iff]
        constructor
        · rintro ⟨target, rest, hsplit, rfl⟩
          exact Or.inr ⟨label, target, rest, rfl, hsplit, Or.inl ⟨hreader, rfl⟩⟩
        · rintro (⟨hlabel, -⟩ | ⟨label', target, rest, hlabel, hsplit, hend⟩)
          · cases hlabel
          · cases hlabel
            rcases hend with ⟨-, rfl⟩ | ⟨hnot, -⟩
            · exact ⟨target, rest, hsplit, rfl⟩
            · exact absurd hreader hnot
      · have hcontains : members.contains reader = false := by
          rw [← Bool.not_eq_true, Std.ExtTreeSet.contains_iff_mem]
          exact hreader
        simp only [hcontains, Bool.false_eq_true, if_false, bind_eq_ok_iff, refuseIf_eq_ok,
          pure_eq_ok_iff, exists_unit_ok]
        constructor
        · rintro ⟨target, rest, hsplit, htarget, rfl⟩
          refine Or.inr ⟨label, target, rest, rfl, hsplit, Or.inr ⟨hreader, ?_, rfl⟩⟩
          rw [← Std.ExtTreeSet.contains_iff_mem, htarget]
          exact Bool.false_ne_true
        · rintro (⟨hlabel, -⟩ | ⟨label', target, rest, hlabel, hsplit, hend⟩)
          · cases hlabel
          · cases hlabel
            rcases hend with ⟨hin, -⟩ | ⟨-, htarget, rfl⟩
            · exact absurd hin hreader
            · refine ⟨target, rest, hsplit, ?_, rfl⟩
              rw [← Bool.not_eq_true, Std.ExtTreeSet.contains_iff_mem]
              exact htarget

theorem exists_attributeInputs_iff {attr : CatalogAttribute} :
    (∃ found, attributeInputs members repo attr = .ok found) ↔
      attr.unknownFields = [] ∧ attr.kind.unsupported = none ∧
        (attr.kind.isLabel = true → ∀ value ∈ attributeLabelValues attr.toAttribute,
          ∃ found, labelInput members repo attr.name value = .ok found) := by
  rw [attributeInputs]
  simp only [bind_eq_ok_iff, refuseIf_eq_ok, exists_unit_ok, decide_eq_false_iff_not, not_not,
    exists_and_left, Option.isSome_eq_false_iff, Option.isNone_iff_eq_none]
  refine and_congr_right fun _ => and_congr_right fun _ => ?_
  cases attr.kind.isLabel with
  | false => simp [pure_eq_ok_iff]
  | true => simp [exists_filterMapM_iff]

theorem mem_attributeInputs {attr : CatalogAttribute} {found : List String}
    (h : attributeInputs members repo attr = .ok found) {input : String} :
    input ∈ found ↔ attr.kind.isLabel = true ∧
      ∃ value ∈ attributeLabelValues attr.toAttribute,
        labelInput members repo attr.name value = .ok (some input) := by
  rw [attributeInputs] at h
  obtain ⟨_, -, h⟩ := bind_eq_ok h
  obtain ⟨_, -, h⟩ := bind_eq_ok h
  cases hlabel : attr.kind.isLabel with
  | false =>
      rw [hlabel, if_neg Bool.false_ne_true, pure_eq_ok_iff] at h
      subst h
      simp
  | true =>
      rw [hlabel, if_pos rfl] at h
      rw [(mem_of_filterMapM h).2 input]
      simp

/-- A record passes when it can be told what it reads, and it is a member or reads no member. -/
theorem exists_recordInputs_iff :
    (∃ inputs, recordInputs members repo = .ok inputs) ↔ repo.Readable ∧ repo.Spares members := by
  have hpasses : (∃ inputs, recordInputs members repo = .ok inputs) ↔
      ∀ attr ∈ repo.attributes, ∃ found, attributeInputs members repo attr = .ok found := by
    rw [← exists_mapM_iff, recordInputs]
    simp only [bind_eq_ok_iff, pure_eq_ok_iff]
    constructor
    · rintro ⟨inputs, found, hfound, -⟩
      exact ⟨found, hfound⟩
    · rintro ⟨found, hfound⟩
      exact ⟨found.flatten, found, hfound, rfl⟩
  rw [hpasses]
  simp only [exists_attributeInputs_iff, labelInput_eq_ok]
  constructor
  · intro h
    refine ⟨⟨fun attr hattr => (h attr hattr).1, fun attr hattr => (h attr hattr).2.1, ?_, ?_, ?_⟩,
      ?_⟩
    · intro attr hattr hlabel hne
      obtain ⟨value, hvalue⟩ := List.exists_mem_of_ne_nil _ hne
      obtain ⟨_, reader, hreader, -⟩ := (h attr hattr).2.2 hlabel value hvalue
      rw [hreader]
      rfl
    · intro attr hattr hlabel value hvalue haddressed
      obtain ⟨_, reader, -, ⟨-, hresolved, -⟩ | ⟨label, _, _, hsome, -⟩⟩ :=
        (h attr hattr).2.2 hlabel value hvalue
      · exact hresolved
      · rw [haddressed] at hsome
        cases hsome
    · rintro label ⟨attr, hattr, hlabel, value, hvalue, haddressed⟩
      obtain ⟨_, reader, -, ⟨hnone, -⟩ | ⟨label', target, rest, hsome, hsplit, -⟩⟩ :=
        (h attr hattr).2.2 hlabel value hvalue
      · rw [haddressed] at hnone
        cases hnone
      · rw [haddressed] at hsome
        cases hsome
        rw [hsplit]
        rfl
    · rintro reader hreader hnot label ⟨attr, hattr, hlabel, value, hvalue, haddressed⟩ target rest
        hsplit
      obtain ⟨_, reader', hreader', ⟨hnone, -⟩ | ⟨label', target', rest', hsome, hsplit', hend⟩⟩ :=
        (h attr hattr).2.2 hlabel value hvalue
      · rw [haddressed] at hnone
        cases hnone
      · rw [haddressed] at hsome
        cases hsome
        rw [hreader] at hreader'
        cases hreader'
        rw [hsplit] at hsplit'
        cases hsplit'
        rcases hend with ⟨hin, -⟩ | ⟨-, htarget, -⟩
        · exact absurd hin hnot
        · exact htarget
  · rintro ⟨hreadable, hspares⟩ attr hattr
    refine ⟨hreadable.known attr hattr, hreadable.supported attr hattr, ?_⟩
    intro hlabel value hvalue
    have hnamed := hreadable.named attr hattr hlabel (List.ne_nil_of_mem hvalue)
    obtain ⟨reader, hreader⟩ := Option.isSome_iff_exists.mp hnamed
    cases haddressed : addressed value with
    | none =>
        exact ⟨none, reader, hreader, Or.inl
          ⟨rfl, hreadable.resolved attr hattr hlabel value hvalue haddressed, rfl⟩⟩
    | some label =>
        have hreads : repo.Reads label := ⟨attr, hattr, hlabel, value, hvalue, haddressed⟩
        obtain ⟨⟨target, rest⟩, hsplit⟩ := Option.isSome_iff_exists.mp (hreadable.valid label hreads)
        by_cases hin : reader ∈ members
        · exact ⟨some ("@@" ++ label), reader, hreader, Or.inr
            ⟨label, target, rest, rfl, hsplit, Or.inl ⟨hin, rfl⟩⟩⟩
        · exact ⟨none, reader, hreader, Or.inr ⟨label, target, rest, rfl, hsplit, Or.inr
            ⟨hin, hspares reader hreader hin label hreads target rest hsplit, rfl⟩⟩⟩

/-- What a record adds are the labels it reads, if it is a member. -/
theorem mem_recordInputs {inputs : List String} (h : recordInputs members repo = .ok inputs)
    {input : String} :
    input ∈ inputs ↔ ∃ reader, repo.canonicalName = some reader ∧ reader ∈ members ∧
      ∃ label, repo.Reads label ∧ input = "@@" ++ label := by
  have hreadable := (exists_recordInputs_iff.mp ⟨inputs, h⟩).1
  rw [recordInputs] at h
  obtain ⟨found, hfound, h⟩ := bind_eq_ok h
  cases h
  rw [mem_flatten_of_mapM hfound]
  constructor
  · rintro ⟨attr, hattr, items, hitems, hinput⟩
    obtain ⟨hlabel, value, hvalue, hrun⟩ := (mem_attributeInputs hitems).mp hinput
    obtain ⟨reader, hreader, ⟨-, -, hnone⟩ | ⟨label, _, _, haddressed, -, hend⟩⟩ :=
      labelInput_eq_ok.mp hrun
    · cases hnone
    · rcases hend with ⟨hin, hsome⟩ | ⟨-, -, hnone⟩
      · cases hsome
        exact ⟨reader, hreader, hin, label, ⟨attr, hattr, hlabel, value, hvalue, haddressed⟩, rfl⟩
      · cases hnone
  · rintro ⟨reader, hreader, hin, label, hreads, rfl⟩
    obtain ⟨attr, hattr, hlabel, value, hvalue, haddressed⟩ := hreads
    obtain ⟨⟨target, rest⟩, hsplit⟩ := Option.isSome_iff_exists.mp
      (hreadable.valid label ⟨attr, hattr, hlabel, value, hvalue, haddressed⟩)
    obtain ⟨items, -, hitems⟩ := (mapM_eq_ok_iff.mp hfound).exists_right hattr
    refine ⟨attr, hattr, items, hitems, (mem_attributeInputs hitems).mpr
      ⟨hlabel, value, hvalue, labelInput_eq_ok.mpr ⟨reader, hreader, Or.inr
        ⟨label, target, rest, haddressed, hsplit, Or.inl ⟨hin, rfl⟩⟩⟩⟩⟩

end Inputs

/-! ### The root -/

theorem mem_filter_usage {generated : StringSet} {group repo : String} :
    repo ∈ generated.filter (fun repo => extensionUsagePrefix repo = some group) ↔
      repo ∈ generated ∧ extensionUsagePrefix repo = some group := by
  rw [← Std.ExtTreeSet.mem_toList, Std.ExtTreeSet.toList_filter, List.mem_filter,
    Std.ExtTreeSet.mem_toList, decide_eq_true_eq]

/-- What all records together add. -/
theorem mem_collected {members : StringSet} {catalog : List CatalogRecord}
    {inputs : List (List String)} (h : catalog.mapM (recordInputs members) = .ok inputs)
    {input : String} :
    input ∈ inputs.flatten.foldl (·.insert ·) (∅ : StringSet) ↔
      ∃ repo ∈ catalog, ∃ reader, repo.canonicalName = some reader ∧ reader ∈ members ∧
        ∃ label, repo.Reads label ∧ input = "@@" ++ label := by
  rw [mem_foldl_insert, mem_flatten_of_mapM h]
  constructor
  · rintro (hnone | ⟨repo, hrepo, found, hfound, hinput⟩)
    · exact absurd hnone Std.ExtTreeSet.not_mem_empty
    · exact ⟨repo, hrepo, (mem_recordInputs hfound).mp hinput⟩
  · rintro ⟨repo, hrepo, hinput⟩
    obtain ⟨found, -, hfound⟩ := (mapM_eq_ok_iff.mp h).exists_right hrepo
    exact Or.inr ⟨repo, hrepo, found, hfound, (mem_recordInputs hfound).mpr hinput⟩

theorem not_any_notApparent {name : String} :
    (name = "" || name.toList.any (notApparent.contains ·)) = false ↔
      name ≠ "" ∧ ∀ c ∈ name.toList, c ∉ notApparent := by
  rw [Bool.or_eq_false_iff, decide_eq_false_iff_not, List.any_eq_false]
  simp

/-- A root is accepted exactly when it names an import of the root module whose usage is isolated,
and then with the scope that says so. -/
theorem resolveIsolatedRoot_eq_ok (debug : Option String → String) (root : String)
    (rootMapping : Option (StringMap String)) (survey : ExtensionRepositories)
    (catalog : List CatalogRecord) (scope : IsolatedRoot) :
    resolveIsolatedRoot debug root rootMapping survey catalog = .ok scope ↔
      stripPrefix "@" root = some scope.anchor ∧ scope.anchor ≠ "" ∧
        (∀ c ∈ scope.anchor.toList, c ∉ notApparent) ∧ rootMapping = some scope.aliases ∧
        ∃ hub group usage, scope.aliases[scope.anchor]? = some hub ∧
          Isolates survey catalog scope hub group usage := by
  rw [resolveIsolatedRoot]
  simp only [bind_eq_ok_iff, okOr_eq_ok_iff, refuseIf_eq_ok, forM_eq_ok_iff, exists_unit_ok,
    pure_eq_ok_iff, effectiveRootGroup_eq_ok, not_any_notApparent]
  constructor
  · rintro ⟨name, hname, ⟨hne, happarent⟩, mapping, hmapping, hub, hhub, group,
      ⟨hgroup, usage, husage, himported, honly, hnamed, honce, hlisted, hhubListed⟩, hextra, inputs,
      hinputs, rfl⟩
    have hpass : ∀ repo ∈ catalog, repo.Readable ∧ repo.Spares
        (survey.generated.filter fun repo => extensionUsagePrefix repo = some group) :=
      fun repo hrepo => exists_recordInputs_iff.mp (exists_mapM_iff.mp ⟨inputs, hinputs⟩ repo hrepo)
    refine ⟨hname, hne, happarent, hmapping, hub, group, usage, hhub, ?_⟩
    refine ⟨⟨hgroup, husage, fun repo => ?_, honly, hnamed, honce, hlisted, hhubListed⟩,
      fun repo => mem_filter_usage, fun repo hrepo => (hpass repo hrepo).1,
      fun repo hrepo => (hpass repo hrepo).2, fun input => mem_collected hinputs⟩
    constructor
    · rintro ⟨hrepo, hgroup⟩
      by_contra hother
      have hrefused := hextra repo (Std.ExtTreeSet.mem_toList.mpr hrepo)
      simp [hother, hgroup] at hrefused
    · rintro rfl
      exact ⟨himported, hgroup⟩
  · rintro ⟨hname, hne, happarent, hmapping, hub, group, usage, hhub, hisolates⟩
    have hroot := hisolates.root
    have hmembers : (survey.generated.filter fun repo =>
        extensionUsagePrefix repo = some group) = scope.members := by
      apply Std.ExtTreeSet.ext_mem
      intro repo
      rw [mem_filter_usage, hisolates.members]
    obtain ⟨inputs, hinputs⟩ : ∃ inputs, catalog.mapM (recordInputs scope.members) = .ok inputs :=
      exists_mapM_iff.mpr fun repo hrepo => exists_recordInputs_iff.mpr
        ⟨hisolates.readable repo hrepo, hisolates.closed repo hrepo⟩
    have hcollected : inputs.flatten.foldl (·.insert ·) (∅ : StringSet) =
        scope.repositoryInputs := by
      apply Std.ExtTreeSet.ext_mem
      intro input
      rw [mem_collected hinputs, hisolates.inputs]
    refine ⟨scope.anchor, hname, ⟨hne, happarent⟩, scope.aliases, hmapping, hub, hhub, group,
      ⟨hroot.extension, usage, hroot.exported, ((hroot.imported hub).mpr rfl).1, hroot.only,
        hroot.named, hroot.once, hroot.listed, hroot.hub_listed⟩, ?_, inputs, ?_, ?_⟩
    · intro other hother
      rw [Std.ExtTreeSet.mem_toList] at hother
      by_cases hgroup : extensionUsagePrefix other = some group
      · simp [(hroot.imported other).mp ⟨hother, hgroup⟩]
      · simp [hgroup]
    · rw [hmembers]
      exact hinputs
    · rw [hmembers, hcollected]

/-- What is asked of the catalog does not depend on the order of its records. -/
theorem Isolates.perm {survey : ExtensionRepositories} {catalog catalog' : List CatalogRecord}
    {scope : IsolatedRoot} {hub group usage : String}
    (h : Isolates survey catalog scope hub group usage) (hperm : catalog.Perm catalog') :
    Isolates survey catalog' scope hub group usage where
  root :=
    { extension := h.root.extension
      exported := h.root.exported
      imported := h.root.imported
      only := h.root.only
      named := fun row hrow => h.root.named row (hperm.mem_iff.mpr hrow)
      once := (hperm.filterMap _).nodup_iff.mp h.root.once
      listed := fun name => ((hperm.filterMap _).mem_iff.symm).trans (h.root.listed name)
      hub_listed := (hperm.filterMap _).mem_iff.mp h.root.hub_listed }
  members := h.members
  readable repo hrepo := h.readable repo (hperm.mem_iff.mpr hrepo)
  closed repo hrepo := h.closed repo (hperm.mem_iff.mpr hrepo)
  inputs input := by
      rw [h.inputs input]
      refine exists_congr fun repo => and_congr_left fun _ => hperm.mem_iff

/-- A root is accepted exactly when it names an import of the root module whose usage is isolated,
and then with the scope that says so. In which order the catalog lists the repositories makes no
difference. -/
theorem isolated_root_exact (debug : Option String → String) (root : String)
    (rootMapping : Option (StringMap String)) (survey : ExtensionRepositories)
    (catalog : List CatalogRecord) (scope : IsolatedRoot) :
    (resolveIsolatedRoot debug root rootMapping survey catalog = .ok scope ↔
      stripPrefix "@" root = some scope.anchor ∧ scope.anchor ≠ "" ∧
        (∀ c ∈ scope.anchor.toList, c ∉ notApparent) ∧ rootMapping = some scope.aliases ∧
        ∃ hub group usage, scope.aliases[scope.anchor]? = some hub ∧
          Isolates survey catalog scope hub group usage) ∧
      ∀ catalog', catalog.Perm catalog' →
        (resolveIsolatedRoot debug root rootMapping survey catalog = .ok scope ↔
          resolveIsolatedRoot debug root rootMapping survey catalog' = .ok scope) := by
  refine ⟨resolveIsolatedRoot_eq_ok debug root rootMapping survey catalog scope, ?_⟩
  intro catalog' hperm
  rw [resolveIsolatedRoot_eq_ok, resolveIsolatedRoot_eq_ok]
  refine and_congr_right fun _ => and_congr_right fun _ => and_congr_right fun _ =>
    and_congr_right fun _ => exists_congr fun hub => exists_congr fun group =>
      exists_congr fun usage => and_congr_right fun _ => ?_
  exact ⟨fun h => h.perm hperm, fun h => h.perm hperm.symm⟩

/-- A usage with a hub, a repository behind it, and a neighbour. -/
def usageCatalog : List CatalogRecord :=
  [{ canonicalName := some "owner++_ext+++usage+hub", originalName := some "hub" },
    { canonicalName := some "owner++_ext+++usage+spoke"
      originalName := some "spoke"
      attributes := [
        { name := "config", kind := .label
          stringValue := some "@@owner++_ext+++usage+hub//:dl" }] },
    { canonicalName := some "owner++ext+neighbor", originalName := some "neighbor" }]

def usageSurvey : ExtensionRepositories where
  imported := (∅ : StringSet).insert "owner++_ext+++usage+hub" |>.insert "owner++ext+neighbor"
  generated := (∅ : StringSet).insert "owner++_ext+++usage+hub"
    |>.insert "owner++_ext+++usage+spoke" |>.insert "owner++ext+neighbor"

def usageMapping : StringMap String :=
  (∅ : StringMap String).insert "renamed" "owner++_ext+++usage+hub"

/-- The usage is accepted in whatever order it is listed. -/
theorem isolated_root_exact_reversed :
    ∃ scope, resolveIsolatedRoot (fun name => name.getD "None") "@renamed" (some usageMapping)
      usageSurvey usageCatalog.reverse = .ok scope := by
  have hpasses : (resolveIsolatedRoot (fun name => name.getD "None") "@renamed"
      (some usageMapping) usageSurvey usageCatalog).toOption.isSome = true := by
    decide +kernel
  cases hscope : resolveIsolatedRoot (fun name => name.getD "None") "@renamed"
      (some usageMapping) usageSurvey usageCatalog with
  | error failure =>
      rw [hscope] at hpasses
      cases hpasses
  | ok scope =>
      exact ⟨scope, ((isolated_root_exact _ _ _ _ _ scope).2 _
        usageCatalog.reverse_perm.symm).mp hscope⟩

end BazelDiff
