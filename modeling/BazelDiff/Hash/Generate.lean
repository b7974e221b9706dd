/-
# Hashing a query result

The pipeline around the traversal: sort the records into rules, generated files and
sources, digest the sources, fold an isolated dependency root, alias generated files to
their rules, walk the targets in label order, and collect the hashes by label. In
partial-graph mode the hashes are what evaluating the recorded recipes yields.
-/

import BazelDiff.Hash.Aggregate
import BazelDiff.Partial.Evaluate

namespace BazelDiff

open Text HashFunction

/-- Everything a generation reads that is neither an option nor a query record. -/
structure Environment (D : Type) where
  disk : Disk
  resolver : ExternalRepoResolver := {}
  /-- The workspace as the file system resolves it. -/
  canonicalWorkspace : Option String := none
  /-- The protobuf encoding of an attribute. -/
  encode : Attribute → List UInt8
  /-- The texts of the repository marker files that can be read. -/
  markers : List String := []
  /-- The seed that is different in every invocation. -/
  alwaysAffectedSeed : D
  moduleGraphJson : Option String := none

variable {D : Type} [HashFunction D]

/-- A target of the query that gets a hash. -/
inductive HashTarget
  | rule (name : String)
  | generated (name generatingRule : String)
  | source (name : String)
  deriving DecidableEq

def HashTarget.label : HashTarget → String
  | .rule name => name
  | .generated name _ => name
  | .source name => name

/-- A source target and the `.bzl` labels it loads. -/
structure SourceTarget where
  name : String
  subincludes : List String

/-- The workspace of a run. -/
def Environment.workspace (environment : Environment D) (options : HashOptions) : Workspace where
  path := options.bazel.workspace
  canonical := environment.canonicalWorkspace

/-- The source hasher of a run. -/
def Environment.sourceHasher (environment : Environment D) (options : HashOptions) :
    SourceHasher where
  workspace := options.bazel.workspace
  tree := options.partialTree
  contentHashes := options.contentHashes
  modifiedFilepaths := options.modifiedFilepaths
  fineGrainedExternalRepos :=
    environment.resolver.scopedSources.repositories.toList.foldl (·.insert ·)
      ((options.bazel.fineGrainedExternalRepos.toList.map (trimStart '@')).foldl (·.insert ·) ∅)
  externalResolver := environment.resolver
  disk := environment.disk

/-- Whether some rule of the query carries an instantiation stack. -/
def hasInstantiationStacks (targets : List Target) : Bool :=
  targets.any fun target => target.type == .rule &&
    target.rule.any fun rule => !rule.instantiationStack.isEmpty

/-- The digests of the labels a package loads. -/
def softDigests (hasher : SourceHasher) (labels : List String) :
    Result (List (String × Option D)) :=
  labels.mapM fun label => do return (label, ← hasher.softDigest label)

/-- Per-package digest of the `.bzl` files that the package's sources load. -/
def packageBzlSeeds (targets : List Target) (hasher : SourceHasher) : Result (StringMap D) := do
  let packages := packageLabels ((targets.filterMap (·.sourceFile)).map
    fun source => (source.name, source.subinclude))
  packages.toList.foldlM
    (fun seeds package => do
      match packageSeed (← softDigests (D := D) hasher package.2.toList) with
      | some seed => return seeds.insert package.1 seed
      | none => return seeds)
    ∅

/-! ## Sorting the records -/

/-- The state of the loop over the records. -/
structure Intake (D : Type) where
  rules : Labels D
  prepared : PreparedRules D
  nodes : StringMap (RuleNode D) := ∅
  decodedRules : List Rule := []
  sourceTargets : List SourceTarget := []
  hashTargets : List HashTarget := []
  recorder : Option RecipeRecorder

namespace Intake

/-- A rule takes its prepared digest, once; a rule without one is decoded later. -/
def addRule (intake : Intake D) (rule : Rule) : Intake D :=
  let intake := { intake with hashTargets := intake.hashTargets ++ [HashTarget.rule rule.name] }
  match intake.prepared.find rule.name with
  | some prepared =>
      { intake with
        prepared := intake.prepared.update rule.name fun _ => none
        rules := intake.rules.update rule.name fun slot => { slot with rule := some rule.name }
        nodes := intake.nodes.insert rule.name { rule := rule, prepared := prepared } }
  | none => { intake with decodedRules := intake.decodedRules ++ [rule] }

def addGenerated (intake : Intake D) (file : GeneratedFile) : Intake D :=
  { intake with
    hashTargets := intake.hashTargets ++ [HashTarget.generated file.name file.generatingRule] }

def addSource (intake : Intake D) (source : SourceFile) : Intake D :=
  { intake with
    recorder := intake.recorder.map fun recorder =>
      recorder.recordSource source.name source.subinclude
    hashTargets := intake.hashTargets ++ [HashTarget.source source.name]
    sourceTargets := intake.sourceTargets ++ [⟨source.name, source.subinclude⟩] }

/-- One record of the query. -/
def add (intake : Intake D) (target : Target) : Intake D :=
  match target.type with
  | .rule => (target.rule.map intake.addRule).getD intake
  | .generatedFile => (target.generatedFile.map intake.addGenerated).getD intake
  | .sourceFile => (target.sourceFile.map intake.addSource).getD intake
  | _ => intake

end Intake

/-- The table and the nodes before aliases are added. -/
structure Graph (D : Type) where
  rules : Labels D
  nodes : StringMap (RuleNode D)

namespace Graph

/-- Give a source target its digest. -/
def addSource (graph : Graph D) (label : String) (d : D) : Graph D :=
  { graph with rules := graph.rules.update label fun slot => { slot with source := some d } }

/-- Add a rule that was not prehashed; a later rule of a name replaces an earlier one. -/
def addDecoded (graph : Graph D) (environment : Environment D) (options : HashOptions)
    (rule : Rule) : Graph D where
  rules := graph.rules.update rule.name fun slot => { slot with rule := some rule.name }
  nodes := graph.nodes.insert rule.name
    { rule := rule
      prepared :=
        { definitionDigest := ruleDefinitionDigest environment.encode rule options.ignoredAttributes
          loadingInputs := partialLoadingInputs options (environment.workspace options) rule } }

/-- The bytes of `(label.len() as u64).to_le_bytes()`. -/
def lengthBytes (label : String) : List UInt8 :=
  (List.range 8).map fun i => UInt8.ofNat ((utf8 label).length / 256 ^ i)

/-- The labels of the sources in the repositories of the isolated root, in order. -/
def scopedSourceLabels (graph : Graph D) (repositories : StringSet) : List String :=
  (graph.rules.keysWith (·.source.isSome)).filter fun label =>
    (splitOnce "//" (trimStart '@' label)).any fun (repo, _) =>
      repo ≠ "" && repositories.contains repo

/-- Fold each scoped source and each repository input into the definition of the hub. -/
def foldIsolatedRoot (graph : Graph D) (environment : Environment D) (options : HashOptions) :
    Result (Graph D) := do
  let scopedSources := environment.resolver.scopedSources
  if scopedSources.repositories.isEmpty then return graph
  match options.bazel.isolatedDependencyRoot with
  | none => .error (.panic "bound root")
  | some root =>
      let name := "//external:" ++ trimStart '@' root
      let (key, hub) ← okOr ("--isolatedDependencyRoot: missing synthetic root " ++ name)
        ((graph.rules.find name).rule.bind fun key => (graph.nodes[key]?).map (key, ·))
      let sources := (graph.scopedSourceLabels scopedSources.repositories).flatMap fun label =>
        lengthBytes label ++ utf8 label ++ (((graph.rules.find label).source).map bytes).getD []
      let inputs ← scopedSources.repositoryInputs.toList.mapM fun label => do
        let d : D ← repositoryInputDigest environment.disk options.bazel.workspace
          environment.resolver.outputBase label
        return lengthBytes label ++ utf8 label ++ bytes d
      let folded : D := digest (bytes hub.prepared.definitionDigest ++ sources ++
        utf8 "repository inputs" ++ inputs.flatten)
      return { graph with
        nodes := graph.nodes.insert key
          { hub with prepared := { hub.prepared with definitionDigest := folded } } }

/-- Rewrite every node's inputs once and keep the slots they lead to. -/
def prepareInputs (graph : Graph D) (fineGrainedRepos : StringSet)
    (canonicalRepoNodes : StringMap String) : Graph D :=
  { graph with
    nodes := graph.nodes.map fun _ node =>
      let inputs := preparedInputs node.rule.ruleInput fineGrainedRepos
        (inputRepoNodes node.rule.ruleInput fineGrainedRepos canonicalRepoNodes)
      { node with
        rule := { node.rule with ruleInput := inputs }
        inputPositions := some (inputs.map fun key => graph.rules.ids[targetLabel key]?) } }

end Graph

/-! ## Aliases of generated files -/

/-- The state of the loop over the generated files. -/
structure Aliasing (D : Type) where
  rules : Labels D
  labelInstances : Option (StringMap (List String)) := none
  recorder : Option RecipeRecorder

namespace Aliasing

/-- Insert into a sorted list without repetition. -/
def insertSorted (group : List String) (name : String) : List String :=
  if name ∈ group then group else group.orderedInsert (· ≤ ·) name

/-- The node that generates a file: its rule's, or a configured instance's. -/
def generatingNode (aliasing : Aliasing D) (generatingRule : String) :
    Aliasing D × Option String :=
  match (aliasing.rules.find generatingRule).rule with
  | some node => (aliasing, some node)
  | none =>
      let instances := aliasing.labelInstances.getD
        (configuredLabelInstances aliasing.rules.ruleKeys)
      ({ aliasing with labelInstances := some instances },
        ((instances[targetLabel generatingRule]?).bind (·.head?)).bind
          fun key => (aliasing.rules.find key).rule)

/-- Let a label stand for a node; a rule of the label's own name is kept aside. -/
def replaceRule (name node : String) (slot : LabelSlot D) : LabelSlot D :=
  { slot with
    rule := some node
    replacedCanonical :=
      if slot.rule = some name ∧ slot.replacedCanonical = none then some name
      else slot.replacedCanonical }

/-- Keep the index of configured keys up to date with a new alias. -/
def indexAlias (name : String) (instances : StringMap (List String)) :
    StringMap (List String) :=
  match splitConfigured name with
  | (label, some _) => instances.alter label fun group => some (insertSorted (group.getD []) name)
  | (_, none) => instances

/-- One iteration of the loop over the generated files. -/
def add (aliasing : Aliasing D) (name generatingRule : String) : Result (Aliasing D) := do
  let (aliasing, node) := aliasing.generatingNode generatingRule
  let node ← okOr ("Unexpected generating rule " ++ generatingRule) node
  return {
    rules := aliasing.rules.update name (replaceRule name node)
    labelInstances := aliasing.labelInstances.map (indexAlias name)
    recorder := aliasing.recorder.map fun recorder => recorder.recordGenerated name node }

/-- The loop over the targets, which skips all but generated files. -/
def addTarget (aliasing : Aliasing D) : HashTarget → Result (Aliasing D)
  | .generated name generatingRule => aliasing.add name generatingRule
  | _ => .ok aliasing

end Aliasing

/-! ## Hashing the targets -/

/-- Record the loading inputs of every rule in the table, and those of the marker files. -/
def recordLoading (rules : Labels D) (nodes : StringMap (RuleNode D)) (markers : List String)
    (recorder : RecipeRecorder) : RecipeRecorder :=
  let recorder := (rules.ruleKeys.filterMap fun key =>
    (rules.find key).rule.bind (nodes[·]?)).foldl
      (fun recorder node => recorder.recordLoadingInputs node.prepared.loadingInputs) recorder
  recorder.recordLoadingInputs (markerLoadingInputs markers)

/-- Hash one target. -/
def hashTarget (context : HashContext D) (state : HashState D) :
    HashTarget → Result (HashState D × KeyedDigest D)
  | .rule key => do
      let (state, d) ← context.ruleDigest state key
      return (state, ⟨key, "Rule", d⟩)
  | .generated name generatingRule => do
      let (state, d) ← context.ruleDigest state generatingRule
      let deps := if context.options.trackDeps then some [generatingRule] else none
      return (state, ⟨name, "GeneratedFile", { d with deps := deps }⟩)
  | .source label =>
      let d := sourceTargetDigest (state.rules.find label).source context.seedHash
        context.packageBzlSeeds[labelPackage label]?
      .ok (state, ⟨label, "SourceFile", ⟨d, d, none⟩⟩)

/-- One iteration of the loop over the sorted targets. -/
def hashTargetStep (context : HashContext D) (done : HashState D × List (KeyedDigest D))
    (target : HashTarget) : Result (HashState D × List (KeyedDigest D)) := do
  let (state, keyed) ← hashTarget context done.1 target
  return (state, done.2 ++ [keyed])

/-- The targets in the order they are hashed in. -/
def sortedTargets (targets : List HashTarget) : List HashTarget :=
  targets.insertionSort fun left right => left.label ≤ right.label

/-- What the traversal starts from. -/
structure Prepared (D : Type) where
  context : HashContext D
  state : HashState D
  targets : List HashTarget

/-- Sort the records of a query result. -/
def takeIn (targets : List Target) (definitionDigests : PreparedRules D)
    (recorder : Option RecipeRecorder) : Intake D :=
  targets.foldl Intake.add
    { rules := definitionDigests.fill default
      prepared := definitionDigests
      recorder := recorder }

/-- The digest of every source target. -/
def digestSources (hasher : SourceHasher) (useCquery : Bool) (sources : List SourceTarget) :
    Result (List (String × D)) :=
  sources.mapM fun source => do
    let d : D ← hasher.digestSource source.name (sourceSeed D source.name source.subincludes)
      useCquery
    return (source.name, d)

/-- The table and the nodes of a query result, once its sources have been digested. -/
def Intake.graph (intake : Intake D) (environment : Environment D) (options : HashOptions)
    (sources : List (String × D)) : Graph D :=
  intake.decodedRules.foldl (·.addDecoded environment options)
    (sources.foldl (fun graph source => graph.addSource source.1 source.2)
      { rules := intake.rules, nodes := intake.nodes })

/-- Whether the repository mapping has been fetched by the time the sources are digested. -/
def mappingReady (environment : Environment D) (options : HashOptions)
    (sources : List SourceTarget) : Bool :=
  environment.resolver.mappingReady || sources.any fun source =>
    (environment.sourceHasher options).consultsMapping source.name

/-- Prepare the inputs when that costs no Bazel call; configured inputs stay as they are. -/
def Graph.prepare (graph : Graph D) (environment : Environment D) (options : HashOptions)
    (ready : Bool) : Graph D :=
  if !options.bazel.useCquery && ready then
    graph.prepareInputs options.bazel.fineGrainedExternalRepos
      environment.resolver.canonicalRepoNodes
  else graph

/-- Let every generated file stand for its rule. -/
def aliasTargets (rules : Labels D) (recorder : Option RecipeRecorder)
    (targets : List HashTarget) : Result (Aliasing D) :=
  targets.foldlM Aliasing.addTarget { rules := rules, recorder := recorder }

/-- The `.bzl` seeds of the packages; rules with instantiation stacks carry their own. -/
def bzlSeeds (options : HashOptions) (targets : List Target) (environment : Environment D) :
    Result (StringMap D) :=
  if hasInstantiationStacks targets then .ok ∅
  else packageBzlSeeds targets (environment.sourceHasher options)

/-- The recorder of a run, in partial-graph mode only. -/
def newRecorder (options : HashOptions) (targets : List Target) (seedHash : D) :
    Option RecipeRecorder :=
  if options.partialTree.isSome then
    some (RecipeRecorder.new seedHash !hasInstantiationStacks targets)
  else none

/-- From the graph of a query result to the start of the traversal. -/
def prepareGraph (options : HashOptions) (environment : Environment D) (seedHash : D)
    (packageSeeds : StringMap D) (intake : Intake D) (graph : Graph D) : Result (Prepared D) := do
  let graph ← graph.foldIsolatedRoot environment options
  let graph := graph.prepare environment options
    (mappingReady environment options intake.sourceTargets)
  let aliasing ← aliasTargets graph.rules intake.recorder intake.hashTargets
  return {
    context :=
      { options := options
        sourceHasher := environment.sourceHasher options
        seedHash := seedHash
        packageBzlSeeds := packageSeeds
        alwaysAffectedSeed := environment.alwaysAffectedSeed
        nodes := graph.nodes }
    state :=
      { rules := aliasing.rules
        labelInstances := aliasing.labelInstances
        recorder := aliasing.recorder.map
          (recordLoading aliasing.rules graph.nodes environment.markers) }
    targets := sortedTargets intake.hashTargets }

/-- Everything before the traversal: the records become a table of labels, a set of nodes and
an ordered list of targets. -/
def prepareTargets (options : HashOptions) (targets : List Target)
    (definitionDigests : PreparedRules D) (environment : Environment D) :
    Result (Prepared D) := do
  if options.partialTree.isSome ∧ options.bazel.useCquery then
    bail "partial graph mode does not support --useCquery"
  let seedHash : D ← hashSeedFiles environment.disk options.bazel.workspace options.seedFilepaths
  let packageSeeds ← bzlSeeds options targets environment
  let intake := takeIn targets definitionDigests (newRecorder options targets seedHash)
  let sources ← digestSources (environment.sourceHasher options) options.bazel.useCquery
    intake.sourceTargets
  prepareGraph options environment seedHash packageSeeds intake
    (intake.graph environment options sources)

/-- Walk the targets in order. -/
def Prepared.run (prepared : Prepared D) : Result (HashState D × List (KeyedDigest D)) :=
  prepared.targets.foldlM (hashTargetStep prepared.context) (prepared.state, [])

/-- The hash file of a finished walk. -/
def hashFile (options : HashOptions) (environment : Environment D) (state : HashState D)
    (digests : List (KeyedDigest D)) : Result (HashFileData D) := do
  let maps := aggregateByLabel digests options.trackDeps
  let data : HashFileData D :=
    { hashes := maps.hashes
      moduleGraphJson := environment.moduleGraphJson
      depEdges := maps.depEdges }
  match state.recorder, options.partialTree with
  | some recorder, some tree =>
      let recipes := recorder.finish
      let hashes ← evaluate recipes (targetKinds maps.hashes) tree
      return { data with hashes := hashes, partialGraph := some recipes, tree := tree.id }
  | _, tree => return { data with tree := tree.bind (·.id) }

def hashTargetsWithEnvironment (options : HashOptions) (targets : List Target)
    (definitionDigests : PreparedRules D) (environment : Environment D) :
    Result (HashFileData D) := do
  let prepared ← prepareTargets options targets definitionDigests environment
  let (state, digests) ← prepared.run
  hashFile options environment state digests

/-- Prehash the records, drop repeated names, hash. The records of module repositories are
prehashed before those of the query and come after them. -/
def hashBatches (options : HashOptions) (repositories batches : Batches)
    (environment : Environment D) : Result (HashFileData D) :=
  let (repositories, prepared) := prehashBatches environment.encode options
    (environment.workspace options) SlotTable.empty repositories
  let (targets, prepared) := prehashBatches environment.encode options
    (environment.workspace options) prepared batches
  hashTargetsWithEnvironment options (deduplicateTargets (targets ++ repositories)) prepared
    environment

/-- What a generation hands to the hasher. -/
def handedOver (options : HashOptions) (repositories batches : Batches)
    (environment : Environment D) : List Target × PreparedRules D :=
  let (repositories, prepared) := prehashBatches environment.encode options
    (environment.workspace options) SlotTable.empty repositories
  let (targets, prepared) := prehashBatches environment.encode options
    (environment.workspace options) prepared batches
  (deduplicateTargets (targets ++ repositories), prepared)

/-- The streaming pipeline. -/
def generateHashes (options : HashOptions) (repositories batches : Batches)
    (environment : Environment D) : Result (HashFileData D) := do
  if options.bazel.isolatedDependencyRoot.isSome ∧ (options.contentHashes.isSome ∨
      options.modifiedFilepaths ≠ [] ∨ options.partialTree.isSome) then
    bail "--isolatedDependencyRoot requires full physical source hashing"
  hashBatches options repositories batches environment

/-- The plain pipeline on records that were not prehashed. -/
def hashTargets (options : HashOptions) (targets : List Target) (environment : Environment D) :
    Result (HashFileData D) :=
  hashTargetsWithEnvironment options targets SlotTable.empty environment

/-- An environment with an empty disk, under the transparent hash function. -/
def Environment.bare : Environment Preimage where
  disk :=
    { metadata := fun _ => .error .notFound
      read := fun path => bail ("no such file " ++ path)
      walk := fun _ => .ok [] }
  encode attr := utf8 attr.name
  alwaysAffectedSeed := digest []

end BazelDiff
