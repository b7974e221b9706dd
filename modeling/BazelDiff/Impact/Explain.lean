/-
# Attributing an impacted target

`explain` walks breadth-first from the queried target along dependencies that are
impacted themselves. The direct labels it meets are the root causes; their paths are
read off the walk's parents, and the subgraph is spanned by the paths that are
reported.

Maps are indexed where the walk has put an entry. The model keeps each such indexing
as a possible panic, and the two loops on a budget, so that running to the end is
something to prove.
-/

import BazelDiff.Impact.Distance

namespace BazelDiff

open Text

variable {D : Type} [DecidableEq D]

/-- Why a root cause's own hash moved. -/
inductive RootCauseKind
  | newTarget
  | selfChanged
  deriving DecidableEq

structure RootCause where
  label : String
  targetType : String
  kind : RootCauseKind
  targetDistance : Nat
  packageHops : Nat
  /-- From the root to the queried target. -/
  path : List String
  deriving DecidableEq

structure ExplainNode where
  label : String
  targetType : String
  impactType : String
  targetDistance : Nat
  isRootCause : Bool
  isQueriedTarget : Bool
  deriving DecidableEq

/-- An edge in the direction of the impact: `start` is a dependency of `final`. -/
structure ExplainEdge where
  start : String
  final : String
  deriving DecidableEq

structure ImpactExplanation where
  target : String
  targetType : String
  impacted : Bool
  removed : Bool
  directlyChanged : Bool
  rootCauses : List RootCause
  totalRootCauses : Nat
  truncated : Bool
  nodes : List ExplainNode
  edges : List ExplainEdge
  deriving DecidableEq

structure ExplainLimits where
  /-- No bound when missing. -/
  maxDepth : Option Nat := none
  /-- All root causes when zero. -/
  maxRoots : Nat := 0

structure ExplainOutcome where
  explanation : ImpactExplanation
  warnings : List String
  notes : List String
  deriving DecidableEq

/-- Indexing a map. -/
def index {β : Type} (map : StringMap β) (key : String) : Result β :=
  match map[key]? with
  | some value => .ok value
  | none => .error (.panic ("no entry found for key " ++ key))

/-! ## The walk -/

/-- The loop variables of `walk_upstream`. -/
structure Upstream where
  distances : StringMap Nat
  parents : StringMap String
  queue : List String
  truncatedByDepth : Bool

section Walk

variable (depEdges : StringMap (List String)) (impacted : StringMap ImpactType)

/-- The inner loop's body: an impacted dependency that is not known yet is queued. -/
def discover (current : String) (depth : Nat) (walk : Upstream) (dep : String) : Upstream :=
  if !impacted.contains dep || walk.distances.contains dep then walk
  else
    { walk with
      distances := walk.distances.insert dep (depth + 1)
      parents := walk.parents.insert dep current
      queue := walk.queue ++ [dep] }

/-- One round of the walk, for the label taken from the queue. -/
def visitUpstream (maxDepth : Option Nat) (walk : Upstream) (current : String) :
    Result Upstream := do
  let depth ← index walk.distances current
  let deps := (depEdges[current]?).getD []
  if maxDepth.any fun max => max ≤ depth then
    let hidden := deps.any fun dep => impacted.contains dep && !walk.distances.contains dep
    return { walk with truncatedByDepth := walk.truncatedByDepth || hidden }
  else
    return deps.foldl (discover impacted current depth) walk

def walkLoop (maxDepth : Option Nat) : Nat → Upstream → Result Upstream
  | fuel, walk =>
      match walk.queue with
      | [] => .ok walk
      | current :: queue =>
          match fuel with
          | 0 => .error .outOfFuel
          | fuel + 1 => do
              let walk ← visitUpstream depEdges impacted maxDepth { walk with queue } current
              walkLoop maxDepth fuel walk

/-- `walk_upstream`. Every label is queued at most once. -/
def walkUpstream (target : String) (maxDepth : Option Nat) : Result Upstream :=
  walkLoop depEdges impacted maxDepth (impacted.size + 1)
    { distances := (∅ : StringMap Nat).insert target 0
      parents := ∅
      queue := [target]
      truncatedByDepth := false }

end Walk

/-- The parent chain of a label, `fuel` labels of it at most. -/
def parentChain (parents : StringMap String) : Nat → String → Result (List String)
  | 0, _ => .error .outOfFuel
  | fuel + 1, label =>
      match parents[label]? with
      | none => .ok [label]
      | some parent => do
          let rest ← parentChain parents fuel parent
          return label :: rest

/-- `path_to_target`. -/
def pathToTarget (root : String) (parents : StringMap String) : Result (List String) :=
  parentChain parents (parents.size + 1) root

/-! ## The explanation -/

/-- The part of a label before its first colon. -/
def packageOf (label : String) : String :=
  match splitOnce ":" label with
  | some (package, _) => package
  | none => label

/-- The declared type of a target, preferring the final revision. -/
def typeOf (label : String) (final start : StringMap (TargetHash D)) : String :=
  let declared (hashes : StringMap (TargetHash D)) :=
    ((hashes[label]?).filter fun hash => hash.kind ≠ "").map (·.kind)
  ((declared final).or (declared start)).getD ""

/-- The number of neighbours on a path in different packages. -/
def packageHops (path : List String) : Nat :=
  (path.zip path.tail).countP fun pair => packageOf pair.1 ≠ packageOf pair.2

/-- The root cause for a direct label of the walk. -/
def rootCause (start final : StringMap (TargetHash D)) (parents : StringMap String)
    (entry : String × Nat) : Result RootCause := do
  let path ← pathToTarget entry.1 parents
  return {
    label := entry.1
    targetType := typeOf entry.1 final start
    kind := if start.contains entry.1 then .selfChanged else .newTarget
    targetDistance := entry.2
    packageHops := packageHops path
    path }

/-- Nearest first, then by label. -/
def RootCause.Before (a b : RootCause) : Prop :=
  a.targetDistance < b.targetDistance ∨
    a.targetDistance = b.targetDistance ∧ a.label ≤ b.label

instance : DecidableRel RootCause.Before := fun a b => by
  unfold RootCause.Before
  infer_instance

/-- Farthest first, then by label. -/
def ExplainNode.Before (a b : ExplainNode) : Prop :=
  b.targetDistance < a.targetDistance ∨
    a.targetDistance = b.targetDistance ∧ a.label ≤ b.label

instance : DecidableRel ExplainNode.Before := fun a b => by
  unfold ExplainNode.Before
  infer_instance

/-- The order of edge sets. -/
def ExplainEdge.Before (a b : ExplainEdge) : Prop :=
  a.start < b.start ∨ a.start = b.start ∧ a.final ≤ b.final

instance : DecidableRel ExplainEdge.Before := fun a b => by
  unfold ExplainEdge.Before
  infer_instance

def impactName : ImpactType → String
  | .direct => "direct"
  | .indirect => "indirect"

/-- The node of one label of the subgraph. -/
def explainNode (start final : StringMap (TargetHash D)) (impacted : StringMap ImpactType)
    (distances : StringMap Nat) (rootLabels : List String) (target label : String) :
    Result ExplainNode := do
  let impact ← index impacted label
  let distance ← index distances label
  return {
    label
    targetType := typeOf label final start
    impactType := impactName impact
    targetDistance := distance
    isRootCause := rootLabels.contains label
    isQueriedTarget := label = target }

/-- The labels of the reported paths, and the target. -/
def includedLabels (roots : List RootCause) (target : String) : StringSet :=
  (Std.ExtTreeSet.ofList (roots.flatMap RootCause.path) compare).insert target

/-- `build_subgraph`. -/
def buildSubgraph (roots : List RootCause) (target : String) (distances : StringMap Nat)
    (impacted : StringMap ImpactType) (depEdges : StringMap (List String))
    (final start : StringMap (TargetHash D)) :
    Result (List ExplainNode × List ExplainEdge) := do
  let included := includedLabels roots target
  let nodes ← included.toList.mapM
    (explainNode start final impacted distances (roots.map (·.label)) target)
  let edges := included.toList.flatMap fun consumer =>
    (((depEdges[consumer]?).getD []).filter fun dep => included.contains dep).map fun dep =>
      (⟨dep, consumer⟩ : ExplainEdge)
  return (nodes.insertionSort ExplainNode.Before,
    edges.dedup.insertionSort ExplainEdge.Before)

/-- The root causes of a walk before the cut. -/
def allRootCauses (start final : StringMap (TargetHash D)) (impacted : StringMap ImpactType)
    (walk : Upstream) : Result (List RootCause) := do
  let roots ← (walk.distances.toList.filter fun entry =>
    impacted[entry.1]? = some .direct).mapM (rootCause start final walk.parents)
  return roots.insertionSort RootCause.Before

def depthWarning (maxDepth : Option Nat) (target : String) : String :=
  "Stopped the search at --maxDepth=" ++ toString (maxDepth.getD 0) ++ " hops above " ++ target ++
    "; root causes further upstream are not reported. Raise or drop --maxDepth for the " ++
    "complete attribution."

def cutNote (kept total : Nat) (target : String) : String :=
  "Reporting " ++ toString kept ++ " of " ++ toString total ++ " root causes for " ++ target ++
    " (--maxRootCauses); pass --maxRootCauses=0 for all of them"

/-- Why a target was impacted. -/
def explain (start final : StringMap (TargetHash D)) (depEdges : StringMap (List String))
    (target : String) (limits : ExplainLimits) : Result ExplainOutcome :=
  let targetType := typeOf target final start
  let impacted := impactedTypes start final
  if !final.contains target && !start.contains target then
    bail (target ++ " is not present in either hash file. Check the label spelling, and note " ++
      "that hashes generated with --targetType only contain the types you asked for.")
  else if !impacted.contains target then
    .ok {
      explanation := {
        target, targetType
        impacted := false
        removed := !final.contains target
        directlyChanged := false
        rootCauses := []
        totalRootCauses := 0
        truncated := false
        nodes := []
        edges := [] }
      warnings := []
      notes := [] }
  else do
    let walk ← walkUpstream depEdges impacted target limits.maxDepth
    let warnings := if walk.truncatedByDepth then [depthWarning limits.maxDepth target] else []
    let all ← allRootCauses start final impacted walk
    let total := all.length
    let cut := 0 < limits.maxRoots && limits.maxRoots < all.length
    let kept := if cut then all.take limits.maxRoots else all
    let notes := if cut then [cutNote kept.length total target] else []
    let (nodes, edges) ← buildSubgraph kept target walk.distances impacted depEdges final start
    return {
      explanation := {
        target, targetType
        impacted := true
        removed := false
        directlyChanged := impacted[target]? = some .direct
        rootCauses := kept
        totalRootCauses := total
        truncated := kept.length < total
        nodes, edges }
      warnings, notes }

end BazelDiff
