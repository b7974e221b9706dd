/-
# Module changes

Two revisions can differ in the versions of their Bazel modules without any hash
telling them apart. When the recorded module graphs name different versions, the
targets that depend on the changed modules' repositories are asked for with one query
and added to the labels whose hash moved.
-/

import BazelDiff.HashFile
import BazelDiff.Lib.Json

namespace BazelDiff

open Text

/-- A module of the graph that `bazel mod graph` prints. -/
structure Module where
  name : String
  version : String
  deriving DecidableEq

namespace ModuleGraph

/-- The key and the module an object describes, if it describes one. -/
def moduleOf (entries : List (String × Json)) : Option (String × Module) := do
  let key ← (Json.lookup "key" entries).bind Json.asStr
  let name ← (Json.lookup "name" entries).bind Json.asStr
  let version ← (Json.lookup "version" entries).bind Json.asStr
  let _ ← (Json.lookup "apparentName" entries).bind Json.asStr
  if name = "" then none else some (key, ⟨name, version⟩)

mutual

/-- Collect the modules of a graph, a later node of one key over an earlier one. -/
def walk (modules : StringMap Module) : Json → StringMap Module
  | .object entries =>
      let modules := match moduleOf entries with
        | some (key, module) => modules.insert key module
        | none => modules
      walkDependencies modules entries
  | _ => modules

/-- The walk of the value of `dependencies`, which is the last entry of that key. -/
def walkDependencies (modules : StringMap Module) : List (String × Json) → StringMap Module
  | [] => modules
  | (key, value) :: rest =>
      if key = "dependencies" ∧ (Json.lookup "dependencies" rest).isNone then
        walkArray modules value
      else walkDependencies modules rest

def walkArray (modules : StringMap Module) : Json → StringMap Module
  | .array items => walkItems modules items
  | _ => modules

def walkItems (modules : StringMap Module) : List Json → StringMap Module
  | [] => modules
  | item :: rest => walkItems (walk modules item) rest

end

end ModuleGraph

/-! ## Changed modules

`parseJson` is how a JSON text is read, `serde_json::from_str`. -/

section Graphs

variable (parseJson : String → Option Json)

/-- The modules of a printed graph. Text before the first brace is skipped, and a text that is
not JSON has no modules. -/
def parseModules (json : String) : StringMap Module :=
  match parseJson (String.ofList (json.toList.dropWhile (· ≠ '\x7b'))) with
  | none => ∅
  | some value => ModuleGraph.walk ∅ value

/-- The name of a key's module, when the two graphs do not give it one version. -/
def changedModule (start final : StringMap Module) (key : String) : Option String :=
  match start[key]?, final[key]? with
  | some left, some right => if left.version = right.version then none else some right.name
  | none, some module => some module.name
  | some module, none => some module.name
  | none, none => none

/-- The names of the modules whose version changed. If only one of the graphs has modules, the
comparison is left to the hashes. -/
def changedModules (start final : String) : List String :=
  let start := parseModules parseJson start
  let final := parseModules parseJson final
  if start.isEmpty ≠ final.isEmpty then []
  else ((start.keys ++ final.keys).filterMap (changedModule start final)).dedup

/-- Whether a canonical repository name is a module's own: the module's name, a separator and a
version, and not a repository of one of its extensions. -/
def canonicalIsBaseForModule (canonical module : String) : Bool :=
  match (stripPrefix module canonical).map String.toList with
  | some (separator :: version) =>
      (separator == '+' || separator == '~') && !version.contains '+' && !version.contains '~'
  | _ => false

variable {D : Type} [DecidableEq D]

/-- The canonical repositories the labels of a hash file name. -/
def canonicalRepos (hashes : StringMap (TargetHash D)) : List String :=
  hashes.keys.filterMap fun label =>
    ((stripPrefix "@@" label).bind (splitOnce "//")).map (·.1)

/-- The repositories of changed modules among the labels of the two revisions, in order. -/
def changedRepos (start final : StringMap (TargetHash D)) (changed : List String) : StringSet :=
  ((canonicalRepos start ++ canonicalRepos final).filter fun repo =>
    changed.any (canonicalIsBaseForModule repo)).foldl (fun repos repo => repos.insert repo) ∅

def rdepsExpression (repos : StringSet) : String :=
  "rdeps(//..., " ++ join " + " (repos.toList.map fun repo => "@@" ++ repo ++ "//...") ++ ")"

/-- The labels of the main repository that a query answered. -/
def answeredLabels (targets : List Target) : List String :=
  (targets.filterMap targetName).filter fun label => !hasPrefix "@@" label

/-- What a failed query adds: every workspace target, or every target if there is none. -/
def conservativeLabels (hashes : StringMap (TargetHash D)) : List String :=
  let workspaceTargets := hashes.keys.filter fun label =>
    !hasPrefix "@@" label && !hasPrefix "//external:" label
  if workspaceTargets.isEmpty then hashes.keys else workspaceTargets

/-- The labels whose hash moved, and with changed modules the labels that depend on these. -/
def impactedWithModuleQuery (start final : HashFileData D) (canQuery : Bool)
    (query : String → Result (List Target)) : Result StringSet := do
  let moved ← impactedTargets start.hashes final.hashes none false
  let impacted := moved.foldl (fun labels label => labels.insert label) (∅ : StringSet)
  if start.moduleGraphJson = final.moduleGraphJson then return impacted
  match start.moduleGraphJson, final.moduleGraphJson with
  | some startGraph, some finalGraph =>
      let changed := changedModules parseJson startGraph finalGraph
      if changed.isEmpty then return impacted
      if !canQuery then
        return final.hashes.keys.foldl (fun labels label => labels.insert label) ∅
      let repos := changedRepos start.hashes final.hashes changed
      if repos.isEmpty then return impacted
      match query (rdepsExpression repos) with
      | .ok targets =>
          return (answeredLabels targets).foldl (fun labels label => labels.insert label) impacted
      | .error _ =>
          return (conservativeLabels final.hashes).foldl (fun labels label => labels.insert label)
            impacted
  | _, _ => return impacted

end Graphs

end BazelDiff
