/-
# Rule definitions and their digests

The digest of a rule's definition covers its class, its label and its attributes. A
streaming query takes it as records arrive and drops the attributes nothing reads
later; a plain caller leaves it to the hasher.
-/

import BazelDiff.Lib.SlotTable
import BazelDiff.Partial.Loading
import BazelDiff.Partial.Recipe

namespace BazelDiff

open Text HashFunction

/-- Whether a repository rule pins its download with `sha256` or `integrity`. -/
def pinsDownloadContent (rule : Rule) : Bool :=
  hasPrefix "//external:" rule.name && rule.attributes.any fun attr =>
    (attr.name == "sha256" || attr.name == "integrity") && attr.stringValue.any (· ≠ "")

/-- A copy of the attribute without the URLs that an integrity among the repository's
attributes pins, or `none` when the attribute carries no such URLs. -/
def withoutIntegrityPinnedUrls (attr : Attribute) (repositoryAttributes : List Attribute) :
    Option Attribute :=
  if attr.name = "remote_patches" then
    -- Entries keep their order, which is the order the patches apply in.
    some { attr with
      stringDictValue := attr.stringDictValue.map fun entry =>
        if entry.2 ≠ "" then ("", entry.2) else entry }
  else if attr.name = "remote_module_file_urls" then
    let pinned := repositoryAttributes.any fun other =>
      other.name == "remote_module_file_integrity" && other.stringValue.any (· ≠ "")
    some (if pinned then { attr with stringListValue := [] } else attr)
  else if attr.name = "remote_file_urls" then
    let pinned := ((repositoryAttributes.filter fun other =>
      other.name = "remote_file_integrity").flatMap (·.stringDictValue)).filter (·.2 ≠ "")
    some { attr with
      stringListDictValue := attr.stringListDictValue.map fun entry =>
        if (pinned.map (·.1)).contains entry.1 then (entry.1, []) else entry }
  else none

section Encoding

-- The protobuf encoding of an attribute.
variable (encode : Attribute → List UInt8)

/-- The bytes one attribute contributes to its rule's definition digest. -/
def hashAttribute (ignored : StringSet) (skipUrls : Bool)
    (repositoryAttributes : Option (List Attribute)) (attr : Attribute) : List UInt8 :=
  if attr.name = "generator_location" ∨ ignored.contains attr.name then []
  else if skipUrls ∧ (attr.name = "url" ∨ attr.name = "urls") then []
  else encode ((repositoryAttributes.bind (withoutIntegrityPinnedUrls attr)).getD attr)

/-- The attributes in the order they are hashed. -/
def hashedAttributes (attributes : List Attribute) : List Attribute :=
  if attributes.IsChain fun a b => a.name ≤ b.name then attributes
  else attributes.insertionSort fun a b => a.name ≤ b.name

/-- The bytes of a rule's definition. -/
def ruleDefinition (rule : Rule) (ignored : StringSet) : List UInt8 :=
  let repositoryAttributes :=
    if hasPrefix "//external:" rule.name then some rule.attributes else none
  utf8 rule.ruleClass ++ utf8 (targetLabel rule.name) ++
    ((rule.skylarkEnvironmentHashCode.map utf8).getD []) ++
    (hashedAttributes rule.attributes).flatMap
      (hashAttribute encode ignored (pinsDownloadContent rule) repositoryAttributes)

variable {D : Type} [HashFunction D]

def ruleDefinitionDigest (rule : Rule) (ignored : StringSet) : D :=
  digest (ruleDefinition encode rule ignored)

/-- A rule with only the attributes later steps read. -/
def stripAttributes (rule : Rule) : Rule :=
  { rule with
    attributes := rule.attributes.filter fun attr =>
      attr.name == "tags" || attr.name == "visibility" }

/-- The digest of a rule's definition, and the rule without the attributes it came from. -/
def prehashRule (rule : Rule) (ignored : StringSet) : Rule × D :=
  (stripAttributes rule, ruleDefinitionDigest encode rule ignored)

/-- What is known about a rule before the traversal. -/
structure PreparedRule (D : Type) where
  definitionDigest : D
  sharedInputs : Option RepositoryInputGroup := none
  /-- Partial-graph mode: the workspace paths the definition digest folds in. -/
  loadingInputs : List String := []

/-- Prepared rules by name; a later one of a name replaces an earlier one. -/
abbrev PreparedRules (D : Type) := SlotTable String (Option (PreparedRule D))

def PreparedRules.extend (prepared : PreparedRules D) (rules : List (String × PreparedRule D)) :
    PreparedRules D :=
  rules.foldl (fun prepared rule => prepared.update rule.1 fun _ => some rule.2) prepared

/-- The loading inputs of a repository rule, in partial-graph mode only. -/
def partialLoadingInputs (options : HashOptions) (workspace : Workspace) (rule : Rule) :
    List String :=
  if options.partialTree.isNone then [] else ruleLoadingInputs rule workspace

/-- Prehash one record: the record it becomes, and its rule's preparation. -/
def prehash (options : HashOptions) (workspace : Workspace)
    (sharedInputs : Option RepositoryInputGroup) (target : Target) :
    Target × Option (String × PreparedRule D) :=
  match target.rule with
  | none => (target, none)
  | some rule =>
      let loadingInputs := partialLoadingInputs options workspace rule
      let (stripped, definitionDigest) := prehashRule encode rule options.ignoredAttributes
      ({ target with rule := some stripped },
        some (rule.name, { definitionDigest, sharedInputs, loadingInputs }))

/-- Records as the query hands them out: in batches, each with the inputs its records
share. -/
abbrev Batches := List (List Target × Option RepositoryInputGroup)

/-- The records after prehashing, and their preparations in query order on top of those of
earlier records. -/
def prehashBatches (options : HashOptions) (workspace : Workspace) (prepared : PreparedRules D)
    (batches : Batches) : List Target × PreparedRules D :=
  let prehashed := batches.flatMap fun batch =>
    batch.1.map (prehash encode options workspace batch.2)
  (prehashed.map (·.1), PreparedRules.extend prepared (prehashed.filterMap (·.2)))

end Encoding

/-- The tags of a rule. -/
def ruleTags (rule : Rule) : List String :=
  ((rule.attributes.find? fun attr => attr.name = "tags").map (·.stringListValue)).getD []

/-- The package groups a rule's visibility names, sorted and without repetition. -/
def visibilityPackageGroups (rule : Rule) : List String :=
  let groups :=
    ((rule.attributes.find? fun attr => attr.name = "visibility").map (·.stringListValue)).getD []
  let named := groups.filter fun label => !hasPrefix "//visibility:" label &&
    !hasSuffix ":__pkg__" label && !hasSuffix ":__subpackages__" label
  (named.insertionSort (· ≤ ·)).dedup

/-- Dropping the attributes nothing reads changes neither the tags nor the visibility. -/
theorem find_stripAttributes (rule : Rule) {name : String}
    (h : name = "tags" ∨ name = "visibility") :
    ((stripAttributes rule).attributes.find? fun attr => attr.name = name) =
      rule.attributes.find? fun attr => attr.name = name := by
  rw [stripAttributes, List.find?_filter]
  congr 1
  funext attr
  rcases h with rfl | rfl
  · by_cases hname : attr.name = "tags" <;> simp [hname]
  · by_cases hname : attr.name = "visibility" <;> simp [hname]

@[simp]
theorem ruleTags_stripAttributes (rule : Rule) :
    ruleTags (stripAttributes rule) = ruleTags rule := by
  rw [ruleTags, find_stripAttributes rule (Or.inl rfl), ruleTags]

@[simp]
theorem visibilityPackageGroups_stripAttributes (rule : Rule) :
    visibilityPackageGroups (stripAttributes rule) = visibilityPackageGroups rule := by
  rw [visibilityPackageGroups, find_stripAttributes rule (Or.inr rfl), visibilityPackageGroups]

end BazelDiff
