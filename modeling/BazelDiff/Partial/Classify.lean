/-
# Which changes leave the graph alone

The classifier looks at the raw diff between two revisions and decides whether an
entry generated at the first can be re-evaluated at the second, or whether the graph
may have changed and has to be queried again.
-/

import BazelDiff.HashFile
import BazelDiff.Partial.Loading

namespace BazelDiff

open Text

/-- One record of the raw diff between two trees. -/
structure DiffEntry where
  path : String
  /-- The status letter: modified, added, deleted, type changed, ... -/
  status : Char
  oldMode : String
  newMode : String
  deriving DecidableEq

/-- The last piece of a path. -/
def baseName (path : String) : String :=
  (split '/' path).getLast?.getD path

/-- Whether Bazel reads this file while loading the graph. -/
def isGraphDefiningPath (path : String) : Bool :=
  let name := baseName path
  ["BUILD", "BUILD.bazel", "WORKSPACE", "WORKSPACE.bazel", "WORKSPACE.bzlmod", "MODULE.bazel",
    "MODULE.bazel.lock", "REPO.bazel", "VENDOR.bazel", ".bazelignore", ".bazelversion",
    ".bazeliskrc"].contains name ||
  hasSuffix ".bzl" name || hasSuffix ".scl" name || hasSuffix "bazelrc" name ||
  hasSuffix ".BUILD" name || hasPrefix "BUILD." name || hasSuffix ".patch" name ||
  hasSuffix ".diff" name || path == "tools/bazel"

/-- Files whose label references are read while external repositories resolve. -/
def moduleFiles : List String :=
  ["MODULE.bazel", "WORKSPACE", "WORKSPACE.bazel", "WORKSPACE.bzlmod"]

/-- The path a label literal of a module file names. -/
def literalPath (literal : String) : Option String :=
  match stripPrefix ":" literal with
  | some name => some (replaceChar ':' '/' name)
  | none =>
      if isMainRepo literal then
        (mainRepoPath literal).map fun path =>
          if ':' ∈ literal.toList then path
          else if path = "" then path
          else path ++ "/" ++ baseName path
      else none

/-- The literals that start after an occurrence of `quote` and end before the next one. -/
def quotedLiterals (quote : Char) : List Char → List String
  | [] => []
  | c :: rest =>
      if c = quote ∧ quote ∈ rest then
        String.ofList (rest.takeWhile (· ≠ quote)) :: quotedLiterals quote rest
      else quotedLiterals quote rest

/-- Main-repository paths named by label literals in `text`, in either quote style. -/
def referencedMainRepoPaths (text : String) : StringSet :=
  let literals := ['"', '\''].flatMap fun quote => quotedLiterals quote text.toList
  ((literals.filter fun literal => '\n' ∉ literal.toList).filterMap literalPath).foldl
    (fun paths path => if path = "" then paths else paths.insert path) ∅

/-- A rebuild pattern: never empty. -/
structure Glob where
  pattern : String
  nonempty : pattern ≠ ""

def Glob.new (pattern : String) : Result Glob :=
  if h : pattern = "" then bail "rebuild pattern must not be empty" else .ok ⟨pattern, h⟩

/-- Whether a `**` may stop after `skip` bytes of `subject`. -/
def crossesAt (subject : List UInt8) (skip : Nat) : Bool :=
  skip == 0 || subject[skip - 1]? == some 47 || skip == subject.length

/-- `*` matches within one path segment, `**` across segments, `?` one byte. -/
def globMatch : List UInt8 → List UInt8 → Bool
  | [], subject => subject.isEmpty
  | 42 :: 42 :: 47 :: rest, subject =>
      ((List.range (subject.length + 1)).any fun skip =>
        crossesAt subject skip && globMatch rest (subject.drop skip)) || globMatch rest subject
  | 42 :: 42 :: rest, subject =>
      ((List.range (subject.length + 1)).any fun skip =>
        crossesAt subject skip && globMatch rest (subject.drop skip)) || globMatch rest subject
  | 42 :: rest, subject =>
      ((List.range (subject.length + 1)).takeWhile fun skip =>
        skip == 0 || subject[skip - 1]? != some 47).any fun skip =>
          globMatch rest (subject.drop skip)
  | 63 :: rest, first :: tail => first != 47 && globMatch rest tail
  | literal :: rest, first :: tail => first == literal && globMatch rest tail
  | _ :: _, [] => false

/-- A pattern without `/` is matched against the basename. -/
def Glob.matches (glob : Glob) (path : String) : Bool :=
  let subject := if '/' ∈ glob.pattern.toList then path else baseName path
  globMatch (utf8 glob.pattern) (utf8 subject)

/-- What the classifier concluded about a revision pair. -/
inductive Classification
  /-- Every changed path is a content change to a regular file. -/
  | derivable (changedSources unmatchedPaths : List String)
  /-- The graph may have changed. -/
  | rebuild (reason : String)
  deriving DecidableEq

/-- The inputs to `classify` that come from git and the configuration. -/
structure ClassifyInputs (D : Type) where
  diff : List DiffEntry
  /-- The revision being hashed. -/
  tree : TreeIndex
  base : HashFileData D
  workspace : Workspace
  seedFilepaths : List String
  rebuildPatterns : List Glob
  /-- Paths named by label in the module and workspace files. -/
  moduleReferenced : StringSet

def isRegularMode (mode : String) : Bool :=
  mode == "100644" || mode == "100664" || mode == "100755"

/-- The text of a status letter in a reason. -/
def statusText (status : Char) : String :=
  if status = 'A' then "added"
  else if status = 'D' then "deleted"
  else if status = 'T' then "type-changed"
  else if status = 'R' then "renamed"
  else if status = 'C' then "copied"
  else "changed"

variable {D : Type}

/-- The source targets whose content a change to `path` reaches: the label naming the path
itself under any package split, and any ancestor directory that is a source target. -/
def sourceLabelsForPath (hashes : StringMap (TargetHash D)) (path : String) : List String :=
  let components := split '/' path
  ((List.range components.length).reverse.flatMap fun below =>
    let front := components.take (below + 1)
    (List.range (below + 1)).map fun cut =>
      "//" ++ join "/" (front.take cut) ++ ":" ++ join "/" (front.drop cut)).filter
    fun label => (hashes[label]?).any fun hash => hash.kind = "SourceFile"

/-- Whether a changed path is a loading input or lies below one, by the text of the two. -/
def isLoadedFrom (path input : String) : Bool :=
  path == input || hasPrefix (input ++ "/") path

/-- The seed files as git names them. -/
def seedPaths (inputs : ClassifyInputs D) : List String :=
  inputs.seedFilepaths.filterMap (normalizeWorkspacePath inputs.workspace)

/-- The first check a changed path fails, as the reason to rebuild. -/
def rebuildReason (inputs : ClassifyInputs D) (recipes : PartialRecipes) (entry : DiffEntry) :
    Option String :=
  let path := entry.path
  if entry.status ≠ 'M' then
    some (path ++ " was " ++ statusText entry.status ++ " (status " ++
      String.singleton entry.status ++ ")")
  else if !isRegularMode entry.oldMode || !isRegularMode entry.newMode then
    some (path ++ " is not a regular file on both sides (modes " ++ entry.oldMode ++ " -> " ++
      entry.newMode ++ ")")
  else if isGraphDefiningPath path then
    some ("graph-defining file " ++ path ++ " changed")
  else if inputs.moduleReferenced.contains path then
    some (path ++ " is named by a module or workspace file and changed")
  else if (seedPaths inputs).contains path then
    some ("seed file " ++ path ++ " changed")
  else
    match recipes.loadInputs.toList.find? (isLoadedFrom path) with
    | some input =>
        some (path ++ " is read while loading the graph (under " ++ input ++ ") and changed")
    | none =>
        (inputs.rebuildPatterns.find? (·.matches path)).map fun glob =>
          path ++ " matches rebuild pattern " ++ glob.pattern

/-- The loop over the diff: the first reason to rebuild, or the labels and paths collected. -/
def classifyEntries (inputs : ClassifyInputs D) (recipes : PartialRecipes) :
    List DiffEntry → List String → List String → Classification
  | [], changedSources, unmatchedPaths => .derivable changedSources unmatchedPaths
  | entry :: rest, changedSources, unmatchedPaths =>
      match rebuildReason inputs recipes entry with
      | some reason => .rebuild reason
      | none =>
          let labels := sourceLabelsForPath inputs.base.hashes entry.path
          if labels.isEmpty then
            classifyEntries inputs recipes rest changedSources (unmatchedPaths ++ [entry.path])
          else classifyEntries inputs recipes rest (changedSources ++ labels) unmatchedPaths

def classify (inputs : ClassifyInputs D) : Classification :=
  match inputs.base.partialGraph with
  | none => .rebuild "base entry carries no partial-graph recipes"
  | some recipes =>
      match inputs.tree.symlinks.find? isGraphDefiningPath with
      | some path => .rebuild ("symlinked graph-defining file " ++ path)
      | none => classifyEntries inputs recipes inputs.diff [] []

end BazelDiff
