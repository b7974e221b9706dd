/-
# An invocation in partial-graph mode

`generate-hashes --partialGraph` hashes the working tree's snapshot. It returns the base when
that describes the snapshot already, re-evaluates the base's recipes when the diff between the
two revisions allows it, and generates with Bazel otherwise. Git, Bazel and the file the base is
read from are parameters.
-/

import BazelDiff.Hash.Generate
import BazelDiff.Partial.RawDiff

namespace BazelDiff

open Text Outcome

/-- The arguments of `generate-hashes` that partial-graph mode looks at. -/
structure GenerateHashesArgs where
  contentHashPath : Option String := none
  modifiedFilepaths : Option String := none
  targetType : List String := []
  partialGraphRebuildPatterns : List String := []
  outputPath : Option String := none
  baseHashes : Option String := none
  depEdgesFile : Option String := none

namespace GenerateHashesArgs

/-- The files of bazel-diff itself, which are not part of the revision. -/
def ownFiles (args : GenerateHashesArgs) : StringSet :=
  [args.outputPath, args.baseHashes, args.depEdgesFile].reduceOption.foldl (·.insert ·) ∅

end GenerateHashesArgs

/-- What an invocation asks git; a call that fails leaves a message. -/
structure Git where
  workspace : Workspace
  /-- `git diff --raw --no-renames -z` between two revisions. -/
  diffRaw : String → String → Except String (List UInt8)
  /-- A file as it is at a revision. -/
  showFile : String → String → Except String (List UInt8)
  /-- The working tree without the given files, with everything git does not ignore. -/
  snapshotWorkingTree : StringSet → Except String TreeIndex

/-- The answer of a call to git. -/
def gitAnswer {α : Type} : Except String α → Result α
  | .ok a => .ok a
  | .error message => bail message

structure DerivationPolicy where
  seedFilepaths : List String
  rebuildPatterns : List Glob

variable {D : Type}

namespace Git

/-- Paths named by label in the module and workspace files of a revision. -/
def moduleReferenced (git : Git) (revision : String) (tree : TreeIndex) : Result StringSet :=
  moduleFiles.foldlM
    (fun paths file => do
      if (tree.get file).isNone then return paths
      let text ← gitAnswer (git.showFile revision file)
      return (referencedMainRepoPaths (lossyUtf8 text)).toList.foldl (·.insert ·) paths) ∅

/-- What the classifier is asked about two revisions. -/
def classifyInputs (git : Git) (baseRevision revision : String) (base : HashFileData D)
    (tree : TreeIndex) (policy : DerivationPolicy) : Result (ClassifyInputs D) := do
  let diff ← gitAnswer (git.diffRaw baseRevision revision)
  let diff ← parseDiffRaw diff
  let moduleReferenced ← git.moduleReferenced revision tree
  return {
    diff := diff
    tree := tree
    base := base
    workspace := git.workspace
    seedFilepaths := policy.seedFilepaths
    rebuildPatterns := policy.rebuildPatterns
    moduleReferenced := moduleReferenced }

def classifyRevisions (git : Git) (baseRevision revision : String) (base : HashFileData D)
    (tree : TreeIndex) (policy : DerivationPolicy) : Result Classification :=
  classify <$> git.classifyInputs baseRevision revision base tree policy

end Git

/-- An error turned into a text under a heading; a panic goes on. -/
def caught {α : Type} (heading : String) : Result α → Result (Except String α)
  | .ok a => .ok (.ok a)
  | .error (.error message) => .ok (.error (heading ++ ": " ++ message))
  | .error failure => .error failure

variable [HashFunction D]

/-- The entry a base gives without Bazel, or the reason to generate. -/
def reuseBase (git : Git) (args : GenerateHashesArgs) (policy : DerivationPolicy) (path : String)
    (base : HashFileData D) (tree : TreeIndex) (treeId : String) :
    Result (Except String (HashFileData D)) := do
  if base.partialGraph.isNone then
    return .error (path ++ " carries no partial-graph recipes")
  if args.depEdgesFile.isSome ∧ base.depEdges.isEmpty ∧ ¬ base.hashes.isEmpty then
    return .error (path ++ " records no dependency edges, which --depEdgesFile needs")
  match base.tree with
  | none => return .error (path ++ " records no git tree")
  | some baseTree =>
      if baseTree = treeId then return .ok base
      match ← caught "classification failed"
        (git.classifyRevisions baseTree treeId base tree policy) with
      | .error reason => return .error reason
      | .ok (.rebuild reason) => return .error reason
      | .ok (.derivable _ _) => caught "derivation failed" (derive base tree)

/-- The options of a full generation at a revision. -/
def HashOptions.fromTree (options : HashOptions) (tree : TreeIndex) : HashOptions :=
  { options with contentHashes := some tree.contentHashes, partialTree := some tree }

/-- The hashes of the working tree's git tree: from the base when the diff between the two
allows it, or else from a full generation that records the recipes. -/
def partialGraphHashes (git : Git) (read : String → Result (HashFileData D))
    (generate : HashOptions → Result (HashFileData D)) (args : GenerateHashesArgs)
    (options : HashOptions) : Result (HashFileData D) := do
  validateHashOptions options
  if args.contentHashPath.isSome then
    bail ("--partialGraph does not support --contentHashPath: source content is read from " ++
      "the git tree")
  if args.modifiedFilepaths.isSome then
    bail "--partialGraph does not support --modified-filepaths"
  if args.targetType ≠ [] then
    bail ("--partialGraph does not support --targetType: a file missing targets cannot be " ++
      "derived from (filter in get-impacted-targets instead)")
  let rebuildPatterns ← args.partialGraphRebuildPatterns.mapM Glob.new
  let tree ← gitAnswer (git.snapshotWorkingTree args.ownFiles)
  match tree.id with
  | none => .error (.panic "a working tree snapshot carries its tree id")
  | some treeId =>
      let reused ← match args.baseHashes with
        | none => pure (.error "no --baseHashes to derive from")
        | some path => do
            let base ← withContext ("failed to read --baseHashes " ++ path) (read path)
            reuseBase git args ⟨options.seedFilepaths, rebuildPatterns⟩ path base tree treeId
      match reused with
      | .ok data => return data
      | .error _ => generate (options.fromTree tree)

/-! ## What an invocation does -/

/-- Arguments and options an invocation accepts, with the patterns it compiles. -/
structure Accepted (args : GenerateHashesArgs) (options : HashOptions) (patterns : List Glob) :
    Prop where
  valid : validateHashOptions options = .ok ()
  contentHashPath : args.contentHashPath = none
  modifiedFilepaths : args.modifiedFilepaths = none
  targetType : args.targetType = []
  patterns : args.partialGraphRebuildPatterns.mapM Glob.new = .ok patterns

section Spec

variable {git : Git} {read : String → Result (HashFileData D)}
  {generate : HashOptions → Result (HashFileData D)} {args : GenerateHashesArgs}
  {options : HashOptions} {patterns : List Glob} {tree : TreeIndex} {treeId : String}

/-- An invocation that returns accepted its arguments. -/
theorem accepted_of_ok {data : HashFileData D}
    (h : partialGraphHashes git read generate args options = .ok data) :
    ∃ patterns, Accepted args options patterns := by
  obtain ⟨_, hvalid, h⟩ := bind_eq_ok h
  cases hcontent : args.contentHashPath with
  | some path => simp [hcontent, bail, bind, Except.bind] at h
  | none =>
      cases hmodified : args.modifiedFilepaths with
      | some path => simp [hcontent, hmodified, bail, bind, Except.bind] at h
      | none =>
          by_cases htype : args.targetType = []
          · simp only [hcontent, hmodified, htype, Option.isSome_none, Bool.false_eq_true,
              ne_eq, not_true_eq_false, if_false] at h
            obtain ⟨patterns, hpatterns, -⟩ := bind_eq_ok h
            exact ⟨patterns, hvalid, hcontent, hmodified, htype, hpatterns⟩
          · simp [hcontent, hmodified, htype, bail, bind, Except.bind] at h

/-- Without a base an invocation generates. -/
theorem partialGraphHashes_none (h : Accepted args options patterns)
    (htree : git.snapshotWorkingTree args.ownFiles = .ok tree) (hid : tree.id = some treeId)
    (hbase : args.baseHashes = none) :
    partialGraphHashes git read generate args options = generate (options.fromTree tree) := by
  rw [partialGraphHashes, h.valid, h.contentHashPath, h.modifiedFilepaths, h.targetType, h.patterns,
    htree]
  simp [hid, hbase, gitAnswer, bind, Except.bind, pure, Except.pure]

/-- With a base an invocation returns what the base gives, and generates when it gives nothing. -/
theorem partialGraphHashes_some (h : Accepted args options patterns)
    (htree : git.snapshotWorkingTree args.ownFiles = .ok tree) (hid : tree.id = some treeId)
    {path : String} (hbase : args.baseHashes = some path) {base : HashFileData D}
    (hread : read path = .ok base) {reused : Except String (HashFileData D)}
    (hreused : reuseBase git args ⟨options.seedFilepaths, patterns⟩ path base tree treeId =
      .ok reused) :
    partialGraphHashes git read generate args options =
      reused.toOption.elim (generate (options.fromTree tree)) .ok := by
  rw [partialGraphHashes, h.valid, h.contentHashPath, h.modifiedFilepaths, h.targetType, h.patterns,
    htree]
  simp only [hid, hbase, hread, hreused, gitAnswer, withContext, bind, Except.bind, pure,
    Except.pure]
  cases reused with
  | ok data => rfl
  | error reason => rfl

end Spec

end BazelDiff
