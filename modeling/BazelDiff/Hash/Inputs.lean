/-
# Rule inputs

The edges of a rule as the query reports them: labels under a plain query, configured
keys under `cquery`, and the synthetic `//external:` nodes that stand for external
repositories hashed as a whole.
-/

import BazelDiff.Hash.Source
import BazelDiff.Hash.Definition

namespace BazelDiff

open Text

/-- Whether a label names a target in an external repository by canonical name. -/
def isCanonicalExternalLabel (label : String) : Bool :=
  hasPrefix "@@" label && !hasPrefix "@@//" label

def needsRepoNodes (inputs : List String) (canonicalFine : Bool) : Bool :=
  canonicalFine || inputs.any isCanonicalExternalLabel

/-- The repository of an input as it is spelled, and the name of its node. -/
def externalInputRepo (input : String) (canonicalRepoNodes : StringMap String) :
    Option (String × String) := do
  if isMainRepo input || !hasPrefix "@" input then none
  let (repo, _) ← splitOnce "//" input
  let name := trimStart '@' repo
  let node := if hasPrefix "@@" repo then (canonicalRepoNodes[name]?).getD name else name
  return (name, node)

/-- The synthetic node an input in an external repository is rewritten to, unless the
repository is hashed fine-grained. -/
def syntheticInput (input : String) (fineGrainedRepos : StringSet)
    (canonicalRepoNodes : StringMap String) : Option String := do
  let (name, node) ← externalInputRepo input canonicalRepoNodes
  if namesFineGrainedRepo name node fineGrainedRepos canonicalRepoNodes then none
  return "//external:" ++ node

def transformExternalInput (input : String) (fineGrainedRepos : StringSet)
    (canonicalRepoNodes : StringMap String) : String :=
  (syntheticInput input fineGrainedRepos canonicalRepoNodes).getD input

/-- Sort and drop repetitions. -/
def sortDedup (inputs : List String) : List String :=
  (inputs.insertionSort (· ≤ ·)).dedup

/-- The inputs of a rule that was not prepared, with the synthetic nodes they stand for. -/
def ruleInputs (rule : Rule) (useCquery : Bool) (fineGrainedRepos : StringSet)
    (canonicalRepoNodes : StringMap String) : List String :=
  let externalSynthetic :=
    ((rule.ruleInput.filter fun input => useCquery || !hasPrefix "//external:" input).map
      fun input => transformExternalInput input fineGrainedRepos canonicalRepoNodes).filter
        (hasPrefix "//external:")
  sortDedup
    ((if useCquery then rule.configuredRuleInput.map encodeConfiguredInput
      else rule.ruleInput) ++ externalSynthetic)

/-- The inputs of a rule prepared for a plain query. -/
def preparedInputs (inputs : List String) (fineGrainedRepos : StringSet)
    (canonicalRepoNodes : StringMap String) : List String :=
  sortDedup (inputs ++
    inputs.filterMap fun input => syntheticInput input fineGrainedRepos canonicalRepoNodes)

/-- Whether a fine-grained repository is given by its canonical name. -/
def canonicalFine (fineGrainedRepos : StringSet) : Bool :=
  fineGrainedRepos.toList.any (hasPrefix "@@")

/-- The repository nodes an input list is rewritten with; the mapping is only consulted when
a canonical name may occur. -/
def inputRepoNodes (inputs : List String) (fineGrainedRepos : StringSet)
    (canonicalRepoNodes : StringMap String) : StringMap String :=
  if needsRepoNodes inputs (canonicalFine fineGrainedRepos) then canonicalRepoNodes else ∅

/-- Whether a canonical name belongs to a repository a module extension generated. -/
def isExtensionRepo (canonical : String) : Bool :=
  2 ≤ canonical.toList.count '+'

/-- The canonical name without its repository part. -/
def extensionUsagePrefix (canonical : String) : Option String :=
  if isExtensionRepo canonical then (rsplitOnce '+' canonical).map (·.1) else none

/-- The node a target in a repository of `extension` reaches its owning module through. -/
def extensionViewNode (node extension : String) : String :=
  node ++ "%" ++ extension

/-- The usage prefix of the module extension that generated the repository a label is in. -/
def ruleExtension (repoMapping : StringMap String) (label : String) : Option String := do
  let rest ← stripPrefix "@" (targetLabel label)
  let (repo, _) ← splitOnce "//" rest
  let canonical ←
    match stripPrefix "@" repo with
    | some canonical => if canonical = "" then none else some canonical
    | none => repoMapping[repo]?
  extensionUsagePrefix canonical

end BazelDiff
