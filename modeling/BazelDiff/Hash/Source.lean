/-
# Digests of source files

A source label is digested from the git tree in partial-graph mode and from the disk
otherwise. What the disk shows and what Bazel answers about external repositories are
parameters; everything decided from them is here.
-/

import BazelDiff.Options
import BazelDiff.Target

namespace BazelDiff

open Text HashFunction

/-- Why `fs::metadata` failed. -/
inductive IoError
  | notFound
  | notADirectory
  | other (message : String)

structure Metadata where
  isFile : Bool
  isDir : Bool
  ownerExecutable : Bool

/-- What a directory walk finds at one entry. -/
inductive DirectoryEntryKind
  | symlink (target : Result String)
  | directory
  | file (content : Result (List UInt8)) (executable : Bool)
  | other

/-- One entry of a sorted directory walk, with its path below the root of the walk. -/
structure DirectoryEntry where
  path : String
  kind : DirectoryEntryKind

/-- The file system as the hasher sees it. -/
structure Disk where
  metadata : String → Except IoError Metadata
  read : String → Result (List UInt8)
  walk : String → Result (List DirectoryEntry)

/-- `Path::exists`. -/
def Disk.hasPath (disk : Disk) (path : String) : Bool :=
  (disk.metadata path).toBool

/-- `with_context`: the context goes before the message of the error. -/
def withContext {α : Type} (context : String) : Result α → Result α
  | .error (.error message) => .error (.error (context ++ ": " ++ message))
  | result => result

/-- The bytes of `mode.to_le_bytes()`: 0755 for directories and executables, 0644 else. -/
def hashPermissions (executable : Bool) : List UInt8 :=
  if executable then [0xED, 0x01, 0, 0] else [0xA4, 0x01, 0, 0]

/-- The bytes one directory entry contributes; a strict walk refuses symlinks and special
files and folds permissions in. -/
def hashDirectoryEntry (D : Type) [HashFunction D] (root : String) (strict : Bool)
    (entry : DirectoryEntry) : Result (List UInt8) := do
  let name := utf8 entry.path ++ [0]
  match entry.kind with
  | .symlink target =>
      if strict then
        bail ("cannot fingerprint symlink inside repository input directory " ++
          UnixPath.join root entry.path)
      let target ← target
      return name ++ utf8 "symlink" ++ utf8 target ++ [0]
  | .directory =>
      return name ++ (if strict then hashPermissions true else []) ++ utf8 "dir" ++ [0]
  | .file content executable =>
      let content ← content
      return name ++ (if strict then hashPermissions executable else []) ++ utf8 "file" ++
        bytes (digest content : D) ++ [if executable then 1 else 0] ++ [0]
  | .other =>
      if strict then
        bail ("unsupported entry in repository input directory " ++
          UnixPath.join root entry.path)
      return name ++ utf8 "other" ++ [0]

def hashDirectoryTree (D : Type) [HashFunction D] (disk : Disk) (root : String) (strict : Bool) :
    Result (List UInt8) := do
  let entries ← disk.walk root
  let pieces ← entries.mapM (hashDirectoryEntry D root strict)
  return pieces.flatten

/-- The repositories and repository inputs an isolated dependency root discovered. -/
structure ScopedSources where
  repositories : StringSet := ∅
  repositoryInputs : StringSet := ∅

/-- What Bazel and the output base say about external repositories. -/
structure ExternalRepoResolver where
  scopedSources : ScopedSources := {}
  outputBase : String := ""
  /-- The main repository's apparent to canonical mapping, fetched on first use. -/
  repoMapping : StringMap String := ∅
  /-- Whether the mapping has been fetched already. -/
  mappingReady : Bool := false
  /-- The first line `bazel query --output location` prints for a repository. -/
  queryLocation : String → Result (Option String) := fun _ => .ok none

namespace ExternalRepoResolver

/-- Canonical repository name to the smallest apparent name mapped to it. -/
def canonicalRepoNodes (resolver : ExternalRepoResolver) : StringMap String :=
  resolver.repoMapping.toList.foldl
    (fun nodes entry =>
      match nodes[entry.2]? with
      | some existing => if existing ≤ entry.1 then nodes else nodes.insert entry.2 entry.1
      | none => nodes.insert entry.2 entry.1)
    ∅

/-- The name of a path component. -/
def componentText : UnixPath.Component → String
  | .rootDir => "/"
  | .curDir => "."
  | .parentDir => ".."
  | .normal name => name

/-- The repository directory a query location lies in. -/
def locatedRepository (external : String) (line : Option String) : Option String := do
  let line ← line
  let (location, _) ← splitOnce ": " line
  let relative ← UnixPath.stripBase external location
  let canonical ← relative.head?
  return UnixPath.join external (componentText canonical)

/-- The directory of an external repository. The mapping comes before any guess from the
apparent name. -/
def resolve (resolver : ExternalRepoResolver) (disk : Disk) (repo : String) : Result String := do
  let external := UnixPath.join resolver.outputBase "external"
  let canonical := resolver.repoMapping[repo]?
  let candidates :=
    match canonical with
    | some canonical => [UnixPath.join external canonical]
    | none => [UnixPath.join external repo, UnixPath.join external (repo ++ "+")]
  match candidates.find? disk.hasPath with
  | some candidate => return candidate
  | none =>
      let line ← resolver.queryLocation repo
      return (locatedRepository external line).getD
        (UnixPath.join external (canonical.getD repo))

end ExternalRepoResolver

/-- Whether a label's repository is one the user fine-grained, by its apparent name or its
canonical name. -/
def namesFineGrainedRepo (name node : String) (fineGrainedRepos : StringSet)
    (canonicalRepoNodes : StringMap String) : Bool :=
  fineGrainedRepos.toList.any fun repo =>
    let repo := trimStart '@' repo
    repo == name || repo == node || canonicalRepoNodes[repo]? == some node

structure SourceHasher where
  workspace : String
  /-- Partial-graph mode: main-repository labels are digested from this tree. -/
  tree : Option TreeIndex
  contentHashes : Option (StringMap String)
  modifiedFilepaths : List String
  fineGrainedExternalRepos : StringSet
  externalResolver : ExternalRepoResolver
  disk : Disk

/-- The repository and the target part of an `@` label, and whether it is canonical. -/
def externalLabelParts (label : String) : Option (Bool × String × String) := do
  let rest ← stripPrefix "@" label
  let (repo, target) ← splitOnce "//" (trimStart '@' rest)
  return (hasPrefix "@" rest, repo, target)

namespace SourceHasher

variable (hasher : SourceHasher)

/-- A canonical source returned by cquery is read directly when it is a file. -/
def resolveConfigured (label key : String) : Result (Option (String × String × Bool)) :=
  let path := UnixPath.join hasher.externalResolver.outputBase key
  match hasher.disk.metadata path with
  | .ok metadata => .ok (if metadata.isFile then some (path, key, true) else none)
  | .error .notFound => .ok none
  | .error .notADirectory => .ok none
  | .error (.other message) =>
      withContext ("failed to inspect source " ++ path ++ " (" ++ label ++ ")") (bail message)

/-- Whether a source's repository is hashed target by target. -/
def isFineGrained (canonical : Bool) (repo : String) : Bool :=
  hasher.fineGrainedExternalRepos.contains repo ||
    (!hasher.fineGrainedExternalRepos.isEmpty &&
      (let nodes := hasher.externalResolver.canonicalRepoNodes
       let node := if canonical then (nodes[repo]?).getD repo else repo
       namesFineGrainedRepo repo node hasher.fineGrainedExternalRepos nodes))

/-- A scoped source has to be a file or a directory; says whether it is a file. -/
def inspectScoped (label path repo : String) : Result Bool :=
  if hasher.externalResolver.scopedSources.repositories.contains repo then
    match hasher.disk.metadata path with
    | .ok metadata =>
        if !metadata.isFile && !metadata.isDir then
          bail ("scoped source " ++ path ++ " (" ++ label ++
            ") is neither a regular file nor a directory")
        else .ok metadata.isFile
    | .error _ => bail ("failed to inspect scoped source " ++ path ++ " (" ++ label ++ ")")
  else .ok false

/-- The path of a source label, its key among the content hashes, and whether it is known to
be a file; `none` for a label that is not hashed. -/
def resolve (label : String) (configuredSource : Bool) :
    Result (Option (String × String × Bool)) := do
  match mainRepoPath label with
  | some path => return some (path, path, false)
  | none =>
      match externalLabelParts label with
      | none => return none
      | some (canonical, repo, target) =>
          let relative := externalLabelPath target
          let key := UnixPath.join (UnixPath.join "external" repo) relative
          let direct ←
            if configuredSource ∧ canonical ∧ repo ≠ "" ∧ hasher.tree.isNone ∧
                hasher.contentHashes.isNone ∧ hasher.modifiedFilepaths.isEmpty then
              hasher.resolveConfigured label key
            else .ok none
          if direct.isSome then return direct
          if !hasher.isFineGrained canonical repo then return none
          let root ← hasher.externalResolver.resolve hasher.disk repo
          let path := UnixPath.join root relative
          let file ← hasher.inspectScoped label path repo
          return some (path, key, file)

/-- Whether resolving a label of a plain query fetches the repository mapping. -/
def consultsMapping (label : String) : Bool :=
  !isMainRepo label && (externalLabelParts label).isSome &&
    !hasher.fineGrainedExternalRepos.isEmpty

/-- Whether the scoped modified paths leave a file's content in the digest. -/
def hashesFile (absolute : String) : Bool :=
  hasher.modifiedFilepaths.isEmpty || hasher.modifiedFilepaths.any fun modified =>
    UnixPath.components (UnixPath.join hasher.workspace modified) == UnixPath.components absolute

/-- Whether the scoped modified paths leave a directory's content in the digest. -/
def hashesDirectory (absolute : String) : Bool :=
  hasher.modifiedFilepaths.isEmpty || hasher.modifiedFilepaths.any fun modified =>
    (UnixPath.stripBase absolute (UnixPath.join hasher.workspace modified)).isSome

/-- Whether a label lies in one of the repositories of the isolated root. -/
def isScoped (label : String) : Bool :=
  (splitOnce "//" (trimStart '@' label)).any fun (repo, _) =>
    hasher.externalResolver.scopedSources.repositories.contains repo

/-- What the disk shows at a path, as the bytes a source digest starts with. -/
def diskContent (D : Type) [HashFunction D] (label absolute contentKey : String)
    (materialized : Bool) : Result (List UInt8) := do
  let metadata := (hasher.disk.metadata absolute).toOption
  let executable : List UInt8 := [if metadata.any (·.ownerExecutable) then 1 else 0]
  match hasher.contentHashes.bind fun hashes => hashes[contentKey]? with
  | some contentHash => return utf8 contentHash ++ [1] ++ executable
  | none =>
      if materialized || metadata.any (·.isFile) then
        let content ←
          if hasher.hashesFile absolute then
            withContext ("failed to read source " ++ absolute ++ " (" ++ label ++ ")")
              (hasher.disk.read absolute)
          else .ok []
        return content ++ [1] ++ executable
      else if metadata.any (·.isDir) then
        let content ←
          if hasher.hashesDirectory absolute then
            withContext ("failed to read source directory " ++ absolute)
              (hashDirectoryTree D hasher.disk absolute (hasher.isScoped label))
          else .ok []
        return content ++ [2]
      else return [0]

variable {D : Type} [HashFunction D]

/-- The digest of a source that is not read from the git tree. -/
def diskDigest (label : String) (seed : List UInt8) (configuredSource : Bool) : Result D := do
  match ← hasher.resolve label configuredSource with
  | none => return digest []
  | some (path, contentKey, materialized) =>
      let absolute := UnixPath.join hasher.workspace path
      let content ← hasher.diskContent D label absolute contentKey materialized
      return digest (content ++ seed ++ utf8 label)

def digestSource (label : String) (seed : List UInt8) (configuredSource : Bool) : Result D :=
  match hasher.tree with
  | some tree =>
      if isMainRepo label then .ok (sourceDigest tree label seed)
      else hasher.diskDigest label seed configuredSource
  | none => hasher.diskDigest label seed configuredSource

/-- The digest of a main-repository file that is not a target, with no seed. -/
def softDigest (label : String) : Result (Option D) := do
  if !isMainRepo label then return none
  match hasher.tree with
  | some tree => return BazelDiff.softDigest tree label
  | none =>
      match ← hasher.resolve label false with
      | none => return none
      | some (path, _, _) =>
          let absolute := UnixPath.join hasher.workspace path
          if (hasher.disk.metadata absolute).toOption.any (·.isFile) then
            some <$> hasher.digestSource label [] false
          else return none

end SourceHasher

/-- The parts of a label a repository rule addresses by path, when they are plain. -/
def repositoryInputParts (label : String) : Result (String × String) := do
  let (repo, target) ← okOr ("invalid repository input " ++ label)
    ((stripPrefix "@@" label).bind (splitOnce "//"))
  let (package, name) ← okOr ("incomplete repository input " ++ label) (splitOnce ":" target)
  let odd (value : String) : Bool := '\\' ∈ value.toList ||
    (split '/' value).any fun part => part == "" || part == "." || part == ".."
  if '/' ∈ repo.toList ∨ '\\' ∈ repo.toList ∨ repo = "." ∨ repo = ".." ∨ name = "" ∨
      ':' ∈ name.toList ∨ ([package, name].filter (· ≠ "")).any odd then
    bail ("invalid repository input path " ++ label)
  return (repo, target)

/-- The digest of a label's physical path, whatever the query calls it. -/
def repositoryInputDigest {D : Type} [HashFunction D] (disk : Disk)
    (workspace outputBase label : String) : Result D := do
  let (repo, target) ← repositoryInputParts label
  let root :=
    if repo = "" then workspace
    else UnixPath.join (UnixPath.join outputBase "external") repo
  match disk.metadata root with
  | .error _ =>
      bail ("repository for " ++ label ++ " is not materialized at " ++ root)
  | .ok metadata =>
      if !metadata.isDir then
        bail ("repository for " ++ label ++ " is not a directory: " ++ root)
      let path := UnixPath.join root (externalLabelPath target)
      match disk.metadata path with
      | .ok metadata =>
          let permissions := hashPermissions (metadata.isDir || metadata.ownerExecutable)
          if metadata.isFile then
            let content ← withContext ("reading repository input " ++ label ++ " at " ++ path)
              (disk.read path)
            return digest (permissions ++ utf8 "file" ++ content)
          else if metadata.isDir then
            let content ← hashDirectoryTree D disk path true
            return digest (permissions ++ utf8 "directory" ++ content)
          else bail ("unsupported repository input " ++ label ++ " at " ++ path)
      | .error .notFound => return digest (utf8 "absent")
      | .error .notADirectory => return digest (utf8 "absent")
      | .error (.other message) =>
          withContext ("inspecting repository input " ++ label ++ " at " ++ path) (bail message)

/-- The digest of the seed files' contents, in the order of the set of their paths. -/
def hashSeedFiles {D : Type} [HashFunction D] (disk : Disk) (workspace : String)
    (paths : List String) : Result D := do
  let contents ← paths.mapM fun path =>
    let absolute := UnixPath.join workspace path
    withContext ("failed to read seed file " ++ absolute) (disk.read absolute)
  return digest contents.flatten

end BazelDiff
