/-
# The traversal of the rule graph

A memoised depth-first walk digests every rule from its definition, its source inputs
and the rules it depends on. A rule met again while it is still being hashed stands in
with a digest of its definition. In partial-graph mode the walk also records a recipe
for every rule.

Nodes are known by the name of their rule: the table holds at most one live node of a
name, and generated files are aliases of it.
-/

import BazelDiff.Hash.Inputs

namespace BazelDiff

open Text HashFunction

variable {D : Type} [HashFunction D]

/-! ## Digests under construction -/

structure TargetDigest (D : Type) where
  overall : D
  direct : D
  deps : Option (List String)
  deriving DecidableEq

structure RecipeBuilder where
  fixed : List UInt8 := []
  sources : List String := []
  deps : List String := []
  deriving DecidableEq

/-- A digest under construction. A hasher is the bytes it has been fed. -/
structure TargetDigestBuilder where
  overallHasher : List UInt8
  directHasher : List UInt8
  deps : List String
  trackDeps : Bool
  /-- Partial-graph mode: the recipe under construction. -/
  recipe : Option RecipeBuilder
  deriving DecidableEq

namespace TargetDigestBuilder

def new (trackDeps recordRecipe : Bool) : TargetDigestBuilder where
  overallHasher := []
  directHasher := []
  deps := []
  trackDeps := trackDeps
  recipe := if recordRecipe then some {} else none

/-- A direct contribution that is not a source digest. -/
def direct (builder : TargetDigestBuilder) (bytes : List UInt8) : TargetDigestBuilder :=
  { builder with
    directHasher := builder.directHasher ++ bytes
    recipe := builder.recipe.map fun recipe => { recipe with fixed := recipe.fixed ++ bytes } }

/-- The digest of a source input. -/
def source (builder : TargetDigestBuilder) (label : String) (d : D) : TargetDigestBuilder :=
  { builder with
    directHasher := builder.directHasher ++ bytes d
    recipe := builder.recipe.map fun recipe =>
      { recipe with sources := recipe.sources ++ [label] } }

/-- The overall digest of a dependency: `label` is the key the edge names, `canonical` the
rule that was hashed. -/
def transitive (builder : TargetDigestBuilder) (label canonical : String) (d : D) :
    TargetDigestBuilder :=
  { builder with
    overallHasher := builder.overallHasher ++ bytes d
    deps := if builder.trackDeps then builder.deps ++ [label] else builder.deps
    recipe := builder.recipe.map fun recipe =>
      { recipe with deps := recipe.deps ++ [canonical] } }

/-- Start from the ordered digests of inputs that several rules share. -/
def shared (builder : TargetDigestBuilder) (labels : List String)
    (labelBytes transitive : List UInt8) : TargetDigestBuilder :=
  let builder := builder.direct labelBytes
  { builder with
    overallHasher := transitive
    deps := if builder.trackDeps then labels else builder.deps
    recipe := builder.recipe.map fun recipe => { recipe with deps := labels } }

def finish (builder : TargetDigestBuilder) : TargetDigest D × Option RuleRecipe :=
  let direct : D := digest builder.directHasher
  ({ overall := digest (builder.overallHasher ++ bytes direct)
     direct := direct
     deps := if builder.deps.isEmpty then none else some builder.deps },
    builder.recipe.map fun recipe =>
      RuleRecipe.new (digest recipe.fixed : D) recipe.sources recipe.deps)

end TargetDigestBuilder

/-! ## The table of labels -/

structure RuleNode (D : Type) where
  rule : Rule
  prepared : PreparedRule D
  /-- The slots of the inputs, by position, when the inputs were prepared. -/
  inputPositions : Option (List (Option Nat)) := none

structure LabelSlot (D : Type) where
  /-- The name of the node the label stands for. -/
  rule : Option String := none
  source : Option D := none
  /-- The node of the label's own rule, when a generated file took its place. -/
  replacedCanonical : Option String := none
  deriving Inhabited, DecidableEq

abbrev Labels (D : Type) := SlotTable String (LabelSlot D)

/-- The keys that stand for a rule, in order. -/
def Labels.ruleKeys (rules : Labels D) : List String :=
  rules.keysWith (·.rule.isSome)

/-- Groups the keys that carry a configuration checksum by label, each group sorted. -/
def configuredLabelInstances (keys : List String) : StringMap (List String) :=
  let instances : StringMap (List String) := keys.foldl
    (fun instances key =>
      match splitConfigured key with
      | (label, some _) => instances.alter label fun group => some (group.getD [] ++ [key])
      | (_, none) => instances)
    ∅
  instances.map fun _ group => group.insertionSort (· ≤ ·)

/-! ## The traversal -/

/-- What the traversal reads. -/
structure HashContext (D : Type) where
  options : HashOptions
  sourceHasher : SourceHasher
  seedHash : D
  packageBzlSeeds : StringMap D
  alwaysAffectedSeed : D
  nodes : StringMap (RuleNode D)

/-- What the traversal changes. `digests` holds the digest cells of the nodes. -/
structure HashState (D : Type) where
  rules : Labels D
  digests : StringMap (TargetDigest D) := ∅
  labelInstances : Option (StringMap (List String)) := none
  repositoryInputDigests : StringMap (List UInt8 × List UInt8) := ∅
  bzlDigests : StringMap (Option D) := ∅
  recorder : Option RecipeRecorder := none

/-- What a rule input resolves to. -/
inductive Input (D : Type)
  | source (d : D)
  /-- The key of the edge, the node it leads to, and a digest that takes precedence. -/
  | rule (dependency node : String) (prior : Option D)

namespace HashState

/-- The digest of a label's own rule, when it has been completed. -/
def completed (state : HashState D) (slot : LabelSlot D) (key : String) :
    Option (TargetDigest D) :=
  (slot.replacedCanonical.or (slot.rule.filter (· = key))).bind (state.digests[·]?)

/-- The digest of a replaced rule, when it has been completed. -/
def prior (state : HashState D) (slot : LabelSlot D) : Option (TargetDigest D) :=
  slot.replacedCanonical.bind (state.digests[·]?)

/-- The rule a slot stands for, as an input reached under `key`. -/
def resolving (state : HashState D) (key : String) (slot : LabelSlot D) : Option (Input D) :=
  slot.rule.map fun node => .rule key node ((state.prior slot).map (·.overall))

/-- The index of configured keys, built on the first miss. -/
def indexLabels (state : HashState D) : HashState D × StringMap (List String) :=
  let instances := state.labelInstances.getD (configuredLabelInstances state.rules.ruleKeys)
  ({ state with labelInstances := some instances }, instances)

/-- The slot of an input's label, by its position when that is known. -/
def inputLabelSlot (state : HashState D) (inputLabel : String) (inputSlot : Option Nat) :
    Option (LabelSlot D) :=
  match inputSlot with
  | some id => state.rules.slots[id]?
  | none => state.rules.get inputLabel

/-- What a rule input resolves to: a source, the exact instance it names, the label it names,
or another configured instance of that label that is not being hashed. -/
def resolveInput (state : HashState D) (encodedInput inputLabel : String)
    (inputSlot : Option Nat) (path : List String) : HashState D × Option (Input D) :=
  let bare := state.inputLabelSlot inputLabel inputSlot
  match bare.bind (·.source) with
  | some d => (state, some (.source d))
  | none =>
      let exact :=
        if encodedInput = inputLabel then none
        else (state.rules.get encodedInput).bind (state.resolving encodedInput)
      match exact.or (bare.bind (state.resolving inputLabel)) with
      | some input => (state, some input)
      | none =>
          let (state, instances) := state.indexLabels
          match (instances[inputLabel]?).bind (·.head?) with
          | none => (state, none)
          | some fallback =>
              if fallback ∈ path then (state, none)
              else (state, (state.rules.get fallback).bind (state.resolving fallback))

/-- Give a label a source digest. -/
def setSource (state : HashState D) (label : String) (d : D) : HashState D :=
  { state with rules := state.rules.update label fun slot => { slot with source := some d } }

end HashState

namespace HashContext

variable (context : HashContext D)

/-- The `.bzl` files of an instantiation stack that lie in the workspace, in order. -/
def stackFiles (rule : Rule) : List String :=
  let files := (rule.instantiationStack.filterMap fun frame => (split ':' frame).head?).filter
    fun path => (hasSuffix ".bzl" path || hasSuffix ".scl" path) &&
      !UnixPath.isAbsolute path && !hasPrefix "external/" path && !hasPrefix "@" path &&
      !hasPrefix "../" path
  (files.foldl (·.insert ·) (∅ : StringSet)).toList

/-- The digest of one `.bzl` file, cached. -/
def bzlDigest (state : HashState D) (path : String) : Result (HashState D × Option D) := do
  match state.bzlDigests[path]? with
  | some cached => return (state, cached)
  | none =>
      let d ← context.sourceHasher.softDigest ("//" ++ path)
      return ({ state with bzlDigests := state.bzlDigests.insert path d }, d)

/-- Feed one `.bzl` file of a stack. -/
def feedStackFile (fed : HashState D × List UInt8) (path : String) :
    Result (HashState D × List UInt8) := do
  let (state, d) ← context.bzlDigest fed.1 path
  match d with
  | some d => return (state, fed.2 ++ utf8 path ++ bytes d)
  | none => return (state, fed.2)

def ruleBzlSeed (state : HashState D) (rule : Rule) : Result (HashState D × Option D) := do
  if rule.instantiationStack.isEmpty then return (state, none)
  let (state, fed) ← (stackFiles rule).foldlM context.feedStackFile (state, [])
  return (state, some (digest fed))

/-- Whether a rule carries one of the always-affected tags. -/
def isAlwaysAffected (rule : Rule) : Bool :=
  !context.options.alwaysAffectedTags.isEmpty &&
    (ruleTags rule).any context.options.alwaysAffectedTags.contains

/-- The direct contributions that come before the inputs. -/
def startDigest (state : HashState D) (node : RuleNode D) :
    Result (HashState D × TargetDigestBuilder) := do
  let builder := TargetDigestBuilder.new context.options.trackDeps state.recorder.isSome
  let builder := builder.direct (bytes node.prepared.definitionDigest)
  let builder := builder.direct (bytes context.seedHash)
  let (state, seed) ← context.ruleBzlSeed state node.rule
  let seed := seed.or context.packageBzlSeeds[labelPackage (targetLabel node.rule.name)]?
  let builder := match seed with
    | some seed => builder.direct (bytes seed)
    | none => builder
  let builder :=
    if context.isAlwaysAffected node.rule then builder.direct (bytes context.alwaysAffectedSeed)
    else builder
  return (state, builder)

/-- The extension whose views a rule's inputs go through. -/
def extensionOf (rule : Rule) : Option String :=
  if !context.options.bazel.useCquery && !context.options.bazel.labelOnlyModuleExtensions.isEmpty
  then ruleExtension context.sourceHasher.externalResolver.repoMapping rule.name
  else none

/-- The inputs of a rule before shared ones are added. -/
def inputsOf (node : RuleNode D) : List String :=
  if node.inputPositions.isSome then node.rule.ruleInput
  else
    let fine := context.options.bazel.fineGrainedExternalRepos
    ruleInputs node.rule context.options.bazel.useCquery fine
      (inputRepoNodes node.rule.ruleInput fine
        context.sourceHasher.externalResolver.canonicalRepoNodes)

/-- The digests of shared inputs, when every one of them is a completed rule. -/
def sharedDigests (state : HashState D) (labels : List String) :
    Option (List UInt8 × List UInt8) := do
  let digests ← labels.mapM fun label => do
    let slot ← (state.rules.get label).filter (·.source.isNone)
    state.completed slot label
  return (labels.flatMap utf8, digests.flatMap fun d => bytes d.overall)

/-- Feed the inputs shared by the hubs of an extension as one, from the cache or from their
completed digests; `none` when one of them is unfinished or a source. -/
def applyRepositoryInputs (state : HashState D) (inputs : RepositoryInputGroup)
    (builder : TargetDigestBuilder) : Option (HashState D × TargetDigestBuilder) := do
  let fed ← (state.repositoryInputDigests[inputs.extension]?).or
    (sharedDigests state inputs.labels)
  let state := { state with
    repositoryInputDigests := state.repositoryInputDigests.insertIfNew inputs.extension fed }
  return (state, builder.shared inputs.labels fed.1 fed.2)

/-- The extension view an input is replaced by, when the table has it. -/
def extensionView (state : HashState D) (extension : Option String) (input : String) :
    Option String := do
  let extension ← extension
  let node ← stripPrefix "//external:" input
  let view := "//external:" ++ extensionViewNode node extension
  if ((state.rules.get view).bind (·.rule)).isSome then some view else none

/-- A visit of a node: its name, the names being hashed, the state. -/
abbrev Visit (D : Type) :=
  String → List String → HashState D → Result (HashState D × TargetDigest D)

/-- The overall digest of a node that may have been completed. -/
def visitOverall (visit : Visit D) (path : List String) (state : HashState D) (node : String)
    (prior : Option D) : Result (HashState D × D) :=
  match prior.or ((state.digests[node]?).map (·.overall)) with
  | some d => .ok (state, d)
  | none => (fun (state, d) => (state, d.overall)) <$> visit node path state

/-- Feed one resolved input. -/
def feedInput (visit : Visit D) (canonicalKey : String) (path : List String)
    (inputLabel : String) (state : HashState D) (builder : TargetDigestBuilder)
    (input : Option (Input D)) : Result (HashState D × TargetDigestBuilder) := do
  match input.filter fun input =>
      match input with
      | .source _ => true
      | .rule dependency _ _ => dependency ≠ canonicalKey with
  | some (.source d) => return (state, builder.source inputLabel d)
  | some (.rule dependency node prior) =>
      let (state, d) ← visitOverall visit path state node prior
      return (state, builder.transitive dependency node d)
  | none =>
      match ← context.sourceHasher.softDigest inputLabel with
      | some (d : D) => return (state.setSource inputLabel d, builder.source inputLabel d)
      | none => return (state, builder)

/-- One iteration of the loop over the inputs. -/
def inputStep (visit : Visit D) (node : RuleNode D) (path : List String)
    (fed : HashState D × TargetDigestBuilder) (input : String × Nat) :
    Result (HashState D × TargetDigestBuilder) :=
  let (state, builder) := fed
  let view := extensionView state (context.extensionOf node.rule) input.1
  let inputSlot :=
    if view.isSome then none
    else node.inputPositions.bind fun ids => (ids[input.2]?).getD none
  let encodedInput := view.getD input.1
  let builder := builder.direct (utf8 encodedInput)
  let inputLabel := targetLabel encodedInput
  let (state, resolved) := state.resolveInput encodedInput inputLabel inputSlot path
  context.feedInput visit node.rule.name path inputLabel state builder resolved

/-- One iteration of the loop over the visibility package groups. -/
def visibilityStep (visit : Visit D) (canonicalKey : String) (path : List String)
    (fed : HashState D × TargetDigestBuilder) (packageGroup : String) :
    Result (HashState D × TargetDigestBuilder) := do
  let (state, builder) := fed
  if packageGroup = targetLabel canonicalKey then return (state, builder)
  match state.rules.get packageGroup with
  | none => return (state, builder)
  | some slot =>
      match slot.rule with
      | none => return (state, builder)
      | some group =>
          if (context.nodes[group]?).all fun node => node.rule.ruleClass ≠ "package_group" then
            return (state, builder)
          let builder := builder.direct (utf8 packageGroup)
          let prior := (state.completed slot packageGroup).map (·.overall)
          let (state, d) ← visitOverall visit path state group prior
          return (state, builder.transitive packageGroup packageGroup d)

/-- The digest a rule still being hashed stands in with. -/
def placeholder (node : RuleNode D) : TargetDigest D :=
  let d := digest (utf8 "cycle" ++ bytes node.prepared.definitionDigest)
  { overall := d, direct := d, deps := none }

/-- Store a finished digest and its recipe. -/
def finishNode (state : HashState D) (key : String) (builder : TargetDigestBuilder) :
    HashState D × TargetDigest D :=
  let finished : TargetDigest D × Option RuleRecipe := builder.finish
  let recorder := match state.recorder, finished.2 with
    | some recorder, some recipe => some (recorder.recordRule key recipe)
    | recorder, _ => recorder
  ({ state with recorder := recorder, digests := state.digests.insert key finished.1 },
    finished.1)

/-- The package groups whose digests a rule folds in. -/
def visibilityOf (rule : Rule) : List String :=
  if context.options.ignoredAttributes.contains "visibility" then []
  else visibilityPackageGroups rule

/-- Hash a node that is neither completed nor on the path. -/
def enterNode (visit : Visit D) (node : RuleNode D) (path : List String) (state : HashState D) :
    Result (HashState D × TargetDigest D) := do
  let canonicalKey := node.rule.name
  let path := canonicalKey :: path
  let (state, builder) ← context.startDigest state node
  let inputs := context.inputsOf node
  let (state, builder, inputs) := match node.prepared.sharedInputs with
    | none => (state, builder, inputs)
    | some group =>
        match applyRepositoryInputs state group builder with
        | some (state, builder) => (state, builder, inputs)
        | none => (state, builder, inputs ++ group.labels)
  let (state, builder) ←
    inputs.zipIdx.foldlM (context.inputStep visit node path) (state, builder)
  let (state, builder) ←
    (context.visibilityOf node.rule).foldlM (context.visibilityStep visit canonicalKey path)
      (state, builder)
  return finishNode state canonicalKey builder

/-- `node_digest` with its recursive calls as a parameter. -/
def nodeStep (visit : Visit D) : Visit D := fun name path state => do
  match state.digests[name]? with
  | some d => return (state, d)
  | none =>
      match context.nodes[name]? with
      | none => .error (.panic ("no node " ++ name))
      | some node =>
          if name ∈ path then return (state, placeholder node)
          context.enterNode visit node path state

/-- `node_digest` with a bound on its depth. -/
def nodeDigest : Nat → Visit D
  | 0 => fun _ _ _ => .error .outOfFuel
  | fuel + 1 => context.nodeStep (nodeDigest fuel)

/-- The depth no traversal exceeds: the names on the path are distinct nodes. -/
def depth : Nat :=
  context.nodes.size + 1

/-- Digests one rule, named by its key. -/
def ruleDigest (state : HashState D) (key : String) : Result (HashState D × TargetDigest D) := do
  let missing := "Unable to find rule " ++ key
  let slot ← okOr missing (state.rules.get key)
  match state.prior slot with
  | some d => return (state, d)
  | none =>
      let rule ← okOr missing slot.rule
      context.nodeDigest context.depth rule [] state

end HashContext

end BazelDiff
