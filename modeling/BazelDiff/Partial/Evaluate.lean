/-
# Evaluating recipes against a tree

The second half of partial-graph hashing: every target's hash from the recipes and a
revision's tree. A full generation in this mode evaluates the recipes it has just
recorded; a derivation evaluates the recipes of an earlier entry.
-/

import BazelDiff.HashFile

namespace BazelDiff

open Text HashFunction

variable {D : Type} [HashFunction D]

/-- The seed of a source digest: its name and the `.bzl` labels it loads. -/
def sourceSeed (D : Type) [HashFunction D] (name : String) (subincludes : List String) :
    List UInt8 :=
  bytes (digest (utf8 name ++ subincludes.flatMap utf8) : D)

/-- The union, package by package, of the non-empty lists of `.bzl` labels that sources load. -/
def packageLabels (sources : List (String × List String)) : StringMap StringSet :=
  sources.foldl
    (fun packages source =>
      if source.2.isEmpty then packages
      else
        packages.alter (labelPackage source.1) fun labels =>
          some (source.2.foldl (·.insert ·) (labels.getD ∅)))
    ∅

/-- One package's seed from the digests of the labels it loads, or `none` when none of them
is a tracked file. -/
def packageSeed (labels : List (String × Option D)) : Option D :=
  if labels.all fun label => label.2.isNone then none
  else
    some (digest (labels.flatMap fun label =>
      match label.2 with
      | some d => utf8 label.1 ++ bytes d
      | none => []))

/-- Per-package digest of the `.bzl` files the package's source files load. -/
def packageSeeds (recipes : PartialRecipes) (sourceLabels : List String) (tree : TreeIndex) :
    StringMap D :=
  let packages := packageLabels (sourceLabels.map fun label => (label, recipes.subincludes label))
  packages.filterMap fun _ labels =>
    packageSeed (labels.toList.map fun label => (label, softDigest tree label))

/-- What an evaluation reads: `Evaluator` without its caches. -/
structure Evaluator (D : Type) where
  recipes : PartialRecipes
  tree : TreeIndex
  sourceDigests : StringMap D

/-- The caches of an `Evaluator`. -/
structure EvaluatorCache (D : Type) where
  softDigests : StringMap (Option D) := ∅
  cache : StringMap (D × D) := ∅

namespace Evaluator

variable (evaluator : Evaluator D)

/-- The digest of one source input: a source target's, or else a tracked file's. -/
def source (key : String) (memo : EvaluatorCache D) (label : String) :
    Result (EvaluatorCache D × D) :=
  match evaluator.sourceDigests[label]? with
  | some d => .ok (memo, d)
  | none =>
      let soft := (memo.softDigests[label]?).getD (softDigest evaluator.tree label)
      let memo := { memo with softDigests := memo.softDigests.insertIfNew label soft }
      match soft with
      | some d => .ok (memo, d)
      | none =>
          bail ("source input " ++ label ++ " of " ++ key ++
            " is neither a target nor a tracked file")

/-- Feed the digest of a source input. -/
def feedSource (key : String) (state : EvaluatorCache D × List UInt8) (label : String) :
    Result (EvaluatorCache D × List UInt8) := do
  let (memo, d) ← evaluator.source key state.1 label
  return (memo, state.2 ++ bytes d)

/-- The digest a rule still being evaluated stands in with. -/
def placeholder (staticDigest : D) : D :=
  digest (utf8 "cycle" ++ bytes staticDigest)

/-- A visit of a rule: its key, the keys being evaluated, the caches. -/
abbrev Visit (D : Type) :=
  String → List String → EvaluatorCache D → Result (EvaluatorCache D × (D × D))

/-- Feed the overall digest of a dependency. -/
def feedDep (visit : Visit D) (path : List String) (state : EvaluatorCache D × List UInt8)
    (dep : String) : Result (EvaluatorCache D × List UInt8) := do
  let (memo, digests) ← visit dep path state.1
  return (memo, state.2 ++ bytes digests.1)

/-- `Evaluator::rule` with its recursive calls as a parameter. -/
def ruleStep (visit : Visit D) : Visit D := fun key path memo => do
  match memo.cache[key]? with
  | some digests => return (memo, digests)
  | none =>
      let recipe ← okOr ("recipes hold no rule " ++ key) evaluator.recipes.rules[key]?
      let staticDigest : D ← recipe.staticDigest
      if key ∈ path then
        return (memo, placeholder staticDigest, placeholder staticDigest)
      let (memo, directBytes) ←
        recipe.sources.foldlM (evaluator.feedSource key) (memo, bytes staticDigest)
      let direct : D := digest directBytes
      let (memo, overallBytes) ← recipe.deps.foldlM (feedDep visit (key :: path)) (memo, [])
      let overall : D := digest (overallBytes ++ bytes direct)
      return ({ memo with cache := memo.cache.insert key (overall, direct) }, overall, direct)

/-- `Evaluator::rule` with a bound on its depth. -/
def rule : Nat → Visit D
  | 0 => fun _ _ _ => .error .outOfFuel
  | fuel + 1 => evaluator.ruleStep (rule fuel)

/-- The depth no evaluation exceeds: the keys on the path are distinct rules. -/
def depth : Nat :=
  evaluator.recipes.rules.size + 1

end Evaluator

/-- The digest of a source target: its content, the seed files and its package's seed. -/
def sourceTargetDigest (source : Option D) (seedHash : D) (packageSeed : Option D) : D :=
  digest ((source.map bytes).getD [] ++ bytes seedHash ++ (packageSeed.map bytes).getD [])

/-- What `evaluate` computes before it visits the targets. -/
structure Evaluation (D : Type) extends Evaluator D where
  seedHash : D
  packageSeeds : StringMap D

/-- The overall and the direct digest of a target of some kind. -/
def evaluateKind (evaluation : Evaluation D) (memo : EvaluatorCache D) (label kind : String) :
    Result (EvaluatorCache D × (D × D)) :=
  let evaluator := evaluation.toEvaluator
  if kind = "Rule" then evaluator.rule evaluator.depth label [] memo
  else if kind = "GeneratedFile" then do
    let generatingRule ← okOr ("recipes do not name the rule generating " ++ label)
      evaluation.recipes.generated[label]?
    evaluator.rule evaluator.depth generatingRule [] memo
  else if kind = "SourceFile" then
    let d := sourceTargetDigest evaluation.sourceDigests[label]? evaluation.seedHash
      evaluation.packageSeeds[labelPackage label]?
    .ok (memo, d, d)
  else bail ("cannot evaluate a target of kind " ++ kind ++ " (" ++ label ++ ")")

/-- One iteration of the loop over the targets. -/
def evaluateTarget (evaluation : Evaluation D) (state : EvaluatorCache D × StringMap (TargetHash D))
    (target : String × String) : Result (EvaluatorCache D × StringMap (TargetHash D)) := do
  let (memo, overall, direct) ← evaluateKind evaluation state.1 target.1 target.2
  return (memo, state.2.insert target.1 ⟨target.2, .sha256 overall, .sha256 direct⟩)

/-- The source targets among the labels of an evaluation. -/
def sourceLabels (targets : StringMap String) : List String :=
  (targets.toList.filter fun target => target.2 = "SourceFile").map (·.1)

/-- Decode the recipes' seed and digest every source target against the tree. -/
def prepareEvaluation (recipes : PartialRecipes) (targets : StringMap String) (tree : TreeIndex) :
    Result (Evaluation D) := do
  if recipes.version ≠ recipeVersion then
    bail ("recipes were recorded with format version " ++ toString recipes.version ++
      ", this release evaluates version " ++ toString recipeVersion)
  let seedHash : D ← decodeDigest recipes.seedHash
  let labels := sourceLabels targets
  return {
    recipes := recipes
    tree := tree
    sourceDigests := labels.foldl
      (fun digests label => digests.insert label
        (sourceDigest tree label (sourceSeed D label (recipes.subincludes label)))) ∅
    seedHash := seedHash
    packageSeeds := if recipes.packageSeeds then packageSeeds recipes labels tree else ∅ }

/-- Every target's hash from the recipes and the revision's tree. The targets are visited in
label order, which fixes which member of a dependency cycle is entered first. -/
def evaluate (recipes : PartialRecipes) (targets : StringMap String) (tree : TreeIndex) :
    Result (StringMap (TargetHash D)) := do
  let evaluation ← prepareEvaluation recipes targets tree
  let (_, hashes) ← targets.toList.foldlM (evaluateTarget evaluation) ({}, ∅)
  return hashes

/-- The labels of a hash file with their kinds. -/
def targetKinds (hashes : StringMap (TargetHash D)) : StringMap String :=
  hashes.map fun _ hash => hash.kind

/-- Re-hash an entry against another revision's tree. Everything but the hashes and the tree
id is carried over. -/
def derive (base : HashFileData D) (tree : TreeIndex) : Result (HashFileData D) := do
  let recipes ← okOr "base entry carries no partial-graph recipes" base.partialGraph
  let hashes ← evaluate recipes (targetKinds base.hashes) tree
  return { base with hashes := hashes, tree := tree.id }

end BazelDiff
