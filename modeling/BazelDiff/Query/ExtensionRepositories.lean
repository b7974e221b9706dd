/-
# The repositories of module extensions

A module names the repositories of an extension it imports, and a repository of an extension
names its siblings, whether or not anything imports them. So the mappings of the modules are read
first, then those of one repository for every extension that is imported. What was read before is
not asked for again, and what Bazel cannot map is left out and remembered.
-/

import BazelDiff.Lib.LossyText
import BazelDiff.Query.HiddenModules
import BazelDiff.Query.IsolatedRoot
import BazelDiff.Query.Unavailable

namespace BazelDiff

open Text

/-- The repositories of extensions, and what else their enumeration learns. -/
structure EnumeratedRepositories extends ExtensionRepositories where
  /-- All modules and extension representatives supplied their mapping. -/
  completeMappings : Bool := false
  /-- The mappings of the modules, when they are complete, by the names that were asked for. -/
  moduleMappings : StringMap RepoMapping := ∅

/-- `bazel mod dump_repo_mapping`, and how a line of it is read. -/
structure MappingCommands where
  dumpRepoMapping : List String → Result (Attempt (List UInt8))
  parseMapping : String → Option RepoMapping
  /-- The bytes of names one invocation has room for. -/
  argumentBudget : Nat

/-! ## Reading mappings -/

/-- Texts that are printed one to a line are read back. -/
theorem lines_printed {texts : List String}
    (h : ∀ text ∈ texts, '\n' ∉ text.toList ∧ hasSuffix "\r" text = false) :
    lines (String.ofList (texts.flatMap fun text => text.toList ++ ['\n'])) = texts := by
  have hlines : texts.map (fun line => if hasSuffix "\r" line then
      String.ofList line.toList.dropLast else line) = texts.map id :=
    List.map_congr_left fun text htext => by rw [(h text htext).2]; rfl
  rw [lines, split_ended, flatMap_split_of_notMem fun text htext => (h text htext).1]
  simp [hlines]

/-- What an invocation printed, and whether it answered for a whole chunk. -/
structure ChunkAnswer where
  stdout : List UInt8
  complete : Bool

namespace MappingCommands

variable (commands : MappingCommands)

/-- The end of an invocation for some names. -/
def mapping (names : List String) : Result ModOutput :=
  (commands.dumpRepoMapping names).map (·.output)

/-- Ask for names that are left of a chunk. -/
def attemptChunk (chunk names : List String) : Result (Attempt ChunkAnswer) :=
  (commands.dumpRepoMapping names).map fun attempted =>
    { output := attempted.output
      value :=
        { stdout := attempted.value
          complete := attempted.output.success && decide (names = chunk) } }

/-- The mapping on every line of an answer. -/
def readMappings (stdout : List UInt8) : List (Option RepoMapping) :=
  (lines (lossyUtf8 stdout)).map fun line => commands.parseMapping (trim line)

/-- Mappings that are printed one to a line are read back. -/
theorem readMappings_printed {texts : List String}
    (h : ∀ text ∈ texts, '\n' ∉ text.toList ∧ hasSuffix "\r" text = false) :
    commands.readMappings (utf8 (String.ofList (texts.flatMap fun text => text.toList ++ ['\n']))) =
      texts.map fun text => commands.parseMapping (trim text) := by
  rw [readMappings, lossyUtf8_utf8, lines_printed h]

/-- The mappings of a chunk, and whether there is one for every name of it. -/
def chunkMappings (chunk : List String) : Option ChunkAnswer → List RepoMapping × Bool
  | none => ([], false)
  | some answer =>
      let read := commands.readMappings answer.stdout
      (read.filterMap id,
        answer.complete && read.all (·.isSome) &&
          decide ((read.filterMap id).length = chunk.length))

def dumpChunks : List (List String) → FailedExtensions →
    Result (List RepoMapping × Bool) × FailedExtensions
  | [], failed => (.ok ([], true), failed)
  | chunk :: chunks, failed =>
      match runModOverRepos commands.mapping commands.argumentBudget "dump_repo_mapping"
          (commands.attemptChunk chunk) chunk failed with
      | (.error failure, failed) => (.error failure, failed)
      | (.ok answer, failed) =>
          match dumpChunks chunks failed with
          | (.error failure, failed) => (.error failure, failed)
          | (.ok more, failed) =>
              let here := commands.chunkMappings chunk answer
              (.ok (here.1 ++ more.1, here.2 && more.2), failed)

/-- `dump_repo_mappings`. The flag says whether the mappings are those of the names, one each. An
invocation that goes wrong leaves it to the caller. -/
def dumpRepoMappings (repos : List String) (failed : FailedExtensions) :
    Result (List RepoMapping × Bool) × FailedExtensions :=
  commands.dumpChunks (chunkArguments repos commands.argumentBudget) failed

end MappingCommands

/-- Take what was read before, once for every name, and the names that are left to ask for. -/
def takePrefetched : List String → StringMap RepoMapping →
    List (Option RepoMapping) × List String
  | [], _ => ([], [])
  | repo :: repos, prefetched =>
      let rest := takePrefetched repos (prefetched.erase repo)
      match prefetched[repo]? with
      | some mapping => (some mapping :: rest.1, rest.2)
      | none => (none :: rest.1, repo :: rest.2)

/-- Put answers where nothing was read before. -/
def fillAnswers : List (Option RepoMapping) → List RepoMapping → Result (List RepoMapping)
  | [], _ => .ok []
  | some mapping :: rest, answers => do
      let filled ← fillAnswers rest answers
      return mapping :: filled
  | none :: rest, answer :: answers => do
      let filled ← fillAnswers rest answers
      return answer :: filled
  | none :: _, [] => .error (.panic "one answer per missing module")

section Survey

variable (commands : MappingCommands)

/-- `module_mappings`. -/
def moduleMappings (repos : List String) (prefetched : StringMap RepoMapping)
    (failed : FailedExtensions) : Result (List RepoMapping × Bool) × FailedExtensions :=
  if prefetched.isEmpty then commands.dumpRepoMappings repos failed
  else
    let taken := takePrefetched repos prefetched
    match commands.dumpRepoMappings taken.2 failed with
    | (.error failure, failed) => (.error failure, failed)
    | (.ok (answers, completeMissing), failed) =>
        if !completeMissing then commands.dumpRepoMappings repos failed
        else ((fillAnswers taken.1 answers).map fun mappings => (mappings, true), failed)

/-- The mappings of the modules. The names of hidden modules are derived, so when they are asked
for in vain the others are asked for alone. -/
def surveyModules (visible hidden : List String) (prefetched : StringMap RepoMapping)
    (failed : FailedExtensions) : Result (List RepoMapping × Bool) × FailedExtensions :=
  if visible ++ hidden = [] then (.ok ([], true), failed)
  else
    match moduleMappings commands (visible ++ hidden) prefetched failed with
    | (.ok (mappings, complete), failed) =>
        (.ok (mappings,
          complete && decide (mappings.length = (visible ++ hidden).length)), failed)
    | (.error failure, failed) =>
        if hidden = [] then (.error failure, failed)
        else
          match commands.dumpRepoMappings visible failed with
          | (.error failure, failed) => (.error failure, failed)
          | (.ok (mappings, _), failed) => (.ok (mappings, false), failed)

/-- Ask for one representative after the other; one that goes wrong is passed over under
`--keep_going`. -/
def dumpEach (keepGoing : Bool) : List String → FailedExtensions →
    Result (List RepoMapping) × FailedExtensions
  | [], failed => (.ok [], failed)
  | name :: names, failed =>
      match commands.dumpRepoMappings [name] failed with
      | (.ok (mappings, _), failed) =>
          match dumpEach keepGoing names failed with
          | (.error failure, failed) => (.error failure, failed)
          | (.ok more, failed) => (.ok (mappings ++ more), failed)
      | (.error failure, failed) =>
          if keepGoing then dumpEach keepGoing names failed else (.error failure, failed)

/-- The mappings of the representatives, and whether there is one for each. -/
def surveySpokes (keepGoing : Bool) (names : List String) (failed : FailedExtensions) :
    Result (List RepoMapping × Bool) × FailedExtensions :=
  if names = [] then (.ok ([], true), failed)
  else
    match commands.dumpRepoMappings names failed with
    | (.ok answered, failed) => (.ok answered, failed)
    | (.error _, failed) =>
        match dumpEach commands keepGoing names failed with
        | (.error failure, failed) => (.error failure, failed)
        | (.ok mappings, failed) => (.ok (mappings, false), failed)

end Survey

/-- The repositories some mappings name. -/
def mappedNames (mappings : List RepoMapping) : List String :=
  mappings.flatMap fun mapping => mapping.toList.map (·.2)

/-- The text before the last separator of a canonical name. -/
def usageOf (canonical : String) : Option String :=
  (rsplitOnce '+' canonical).map (·.1)

/-- Note a repository as the representative of its usage, unless there is one. -/
def represent (representatives : StringMap String) (canonical : String) : StringMap String :=
  match usageOf canonical with
  | none => representatives
  | some usage => representatives.insertIfNew usage canonical

/-- One imported repository for every usage, the first in order. -/
def representativesOf (imported : StringSet) : StringMap String :=
  imported.toList.foldl represent ∅

/-- The repositories whose mappings are not known to fail. -/
def retainMapped (repositories : StringSet) (failed : FailedExtensions) : StringSet :=
  repositories.filter fun canonical => !hasUnavailableMapping canonical failed

/-- The modules of the root's mapping. -/
def visibleModules (canonicalToApparent : StringMap (List String)) : List String :=
  canonicalToApparent.keys.filter fun canonical => !isExtensionRepo canonical

/-- The repositories of extensions that the root or one of some mappings names. -/
def importsOf (canonicalToApparent : StringMap (List String)) (mappings : List RepoMapping) :
    StringSet :=
  ((canonicalToApparent.keys ++ mappedNames mappings).filter isExtensionRepo).foldl (·.insert ·) ∅

/-- The repositories some mappings name that are of a usage with a representative. -/
def siblingsOf (representatives : StringMap String) (mappings : List RepoMapping) : List String :=
  (mappedNames mappings).filter fun canonical =>
    (usageOf canonical).any representatives.contains

section Enumeration

variable (commands : MappingCommands)

/-- `extension_repositories`. -/
def extensionRepositories (keepGoing : Bool) (canonicalToApparent : StringMap (List String))
    (hidden : List String) (prefetched : StringMap RepoMapping) (completeInputs : Bool)
    (failed : FailedExtensions) : Result EnumeratedRepositories × FailedExtensions :=
  let modules := visibleModules canonicalToApparent ++ hidden
  let completeStart := completeInputs && failed.isEmpty
  match surveyModules commands (visibleModules canonicalToApparent) hidden prefetched failed with
  | (.error failure, failed) => (.error failure, failed)
  | (.ok (mappings, completeModules), failed) =>
      let imported := retainMapped (importsOf canonicalToApparent mappings) failed
      let representatives := representativesOf imported
      match surveySpokes commands keepGoing (representatives.toList.map (·.2)) failed with
      | (.error failure, failed) => (.error failure, failed)
      | (.ok (spokes, completeSpokes), failed) =>
          let complete := completeStart && completeModules && completeSpokes
          (.ok
            { imported := retainMapped imported failed
              generated :=
                retainMapped ((siblingsOf representatives spokes).foldl (·.insert ·) imported)
                  failed
              completeMappings := complete
              moduleMappings :=
                if complete && !hidden.isEmpty then
                  (modules.zip mappings).foldl (fun map entry => map.insert entry.1 entry.2) ∅
                else ∅ },
            failed)

end Enumeration

end BazelDiff
