/-
# Hash files and the labels they tell apart

A hash file maps labels to hashes, with the metadata later commands read. A label is
impacted between two files when the second has it and the first does not record the
same state for it.
-/

import BazelDiff.Partial.Recipe

namespace BazelDiff

open Text

/-- A target hash as written in a hash file: a digest, or any other text verbatim. -/
inductive Digest (D : Type)
  | sha256 (bytes : D)
  | text (value : String)
  deriving DecidableEq

structure TargetHash (D : Type) where
  kind : String
  hash : Digest D
  directHash : Digest D
  deriving DecidableEq

variable {D : Type} [DecidableEq D]

/-- Whether `other` records the same state for a target. -/
def TargetHash.sameAs (hash other : TargetHash D) : Bool :=
  hash.hash = other.hash ∧ hash.directHash = other.directHash ∧ hash.kind = other.kind

theorem TargetHash.sameAs_iff (hash other : TargetHash D) :
    hash.sameAs other = true ↔ hash = other := by
  cases hash
  cases other
  simp only [TargetHash.sameAs, decide_eq_true_eq, TargetHash.mk.injEq]
  tauto

/-- One revision's hashes and what travels with them. -/
structure HashFileData (D : Type) where
  hashes : StringMap (TargetHash D) := ∅
  moduleGraphJson : Option String := none
  dependencyFingerprint : Option String := none
  depEdges : StringMap (List String) := ∅
  /-- Partial-graph mode: the recipes a derivation re-evaluates. -/
  partialGraph : Option PartialRecipes := none
  /-- Partial-graph mode: the id of the git tree the hashes describe. -/
  tree : Option String := none

def kindRank (hash : Option (TargetHash D)) : Nat :=
  match hash.map (·.kind) |>.filter (· ≠ "") with
  | some kind =>
      if kind = "SourceFile" then 0
      else if kind = "GeneratedFile" then 1
      else if kind = "Rule" then 2
      else 3
  | none => 4

def accepts (label : String) (final : StringMap (TargetHash D))
    (targetTypes : Option StringSet) : Result Bool :=
  match targetTypes with
  | none => .ok true
  | some types =>
      match final[label]? with
      | none => bail ("missing final hash for impacted target " ++ label)
      | some hash =>
          if hash.kind = "" then
            bail ("No target type info found, please re-generate the target hashes JSON with " ++
              "--includeTargetType!")
          else .ok (types.contains hash.kind)

/-- The labels the target-type filter accepts, or its first error. -/
def acceptedLabels (labels : List String) (final : StringMap (TargetHash D))
    (targetTypes : Option StringSet) (excludeExternal : Bool) : Result (List String) :=
  (labels.filter fun label => !excludeExternal || !hasPrefix "//external:" label).filterMapM
    fun label => do
      if ← accepts label final targetTypes then return some label else return none

def filterAndSortLabels (labels : List String) (start final : StringMap (TargetHash D))
    (targetTypes : Option StringSet) (excludeExternal : Bool) : Result (List String) := do
  let impacted ← acceptedLabels labels final targetTypes excludeExternal
  let ranked := impacted.map fun label =>
    (kindRank ((final[label]?).or (start[label]?)), label)
  let before (a b : Nat × String) : Prop := a.1 < b.1 ∨ (a.1 = b.1 ∧ a.2 ≤ b.2)
  have : DecidableRel before := fun a b => by unfold before; infer_instance
  return ((ranked.insertionSort before).dedup.map (·.2))

/-- The labels of `final` whose state is not the one `start` records, as the comparison
commands report them. -/
def impactedTargets (start final : StringMap (TargetHash D))
    (targetTypes : Option StringSet) (excludeExternal : Bool) : Result (List String) := do
  let changed := (final.toList.filter fun entry =>
    !(start[entry.1]?).any fun previous => previous.sameAs entry.2).map (·.1)
  let impacted ← acceptedLabels changed final targetTypes excludeExternal
  filterAndSortLabels impacted start final targetTypes excludeExternal

end BazelDiff
