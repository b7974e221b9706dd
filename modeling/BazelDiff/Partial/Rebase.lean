/-
# With a base or without one

A run of invocations with the same arguments, each in its own state of the workspace and each
but the first with the output of the one before as its base. What the base gives without Bazel
is what a generation would return that read the seed files the first invocation of the run read.
The seed files are no part of the revision, so a change of one that git does not report goes
unseen.
-/

import BazelDiff.Hash.SeededHash
import BazelDiff.Hash.Streaming
import BazelDiff.HashFileJson
import BazelDiff.Partial.Derivation
import BazelDiff.Partial.Invocation
import BazelDiff.Partial.LoadingGuard
import Mathlib.Data.List.ReduceOption

namespace BazelDiff

open Text HashFunction Outcome

variable {D : Type} [HashFunction D]

/-! ## Invocations -/

/-- A state of the workspace: what git and Bazel answer in it, and the disk. -/
structure WorkspaceState (D : Type) where
  /-- The tree of everything git does not ignore, without some files. -/
  snapshot : StringSet → TreeIndex
  repositories : Batches
  batches : Batches
  environment : Environment D

/-- What invocations have in common: their arguments, the file they write, and git's objects. -/
structure Series where
  git : Git
  args : GenerateHashesArgs
  options : HashOptions
  output : String
  output_eq : args.outputPath = some output

namespace Series

variable (series : Series)

/-- The arguments of an invocation, which takes the file it writes for its base or has none. -/
def argsWith (base : Bool) : GenerateHashesArgs :=
  { series.args with baseHashes := if base then some series.output else none }

/-- The revision an invocation hashes. -/
def tree (state : WorkspaceState D) : TreeIndex :=
  state.snapshot (series.argsWith false).ownFiles

/-- One invocation, with a base to read or without. -/
def invoke (state : WorkspaceState D) (base : Option (HashFileData D)) :
    Result (HashFileData D) :=
  partialGraphHashes
    { series.git with snapshotWorkingTree := fun excluded => .ok (state.snapshot excluded) }
    (fun path => okOr ("no such file " ++ path) base)
    (fun options => generateHashes options state.repositories state.batches state.environment)
    (series.argsWith base.isSome) series.options

/-- What the next invocation reads of an entry: the edges are written with `--depEdgesFile`
only. -/
def saved (data : HashFileData D) : HashFileData D :=
  { data with depEdges := if series.args.depEdgesFile.isSome then data.depEdges else ∅ }

/-- The entries a run of invocations writes, each with the state it was written in. -/
inductive Written (Real : WorkspaceState D → Prop) : WorkspaceState D → HashFileData D → Prop
  | generated {state : WorkspaceState D} {data : HashFileData D} (hreal : Real state)
      (h : series.invoke state none = .ok data) : Written Real state (series.saved data)
  | rebased {earlier state : WorkspaceState D} {base data : HashFileData D}
      (hbase : Written Real earlier base) (hreal : Real state)
      (h : series.invoke state (some base) = .ok data) : Written Real state (series.saved data)

/-- What the classifier is asked about a base and a later revision. -/
def inputs (base : HashFileData D) (tree : TreeIndex) : Result (ClassifyInputs D) := do
  let patterns ← series.args.partialGraphRebuildPatterns.mapM Glob.new
  let baseTree ← okOr "no base tree" base.tree
  let treeId ← okOr "no tree" tree.id
  series.git.classifyInputs baseTree treeId base tree ⟨series.options.seedFilepaths, patterns⟩

end Series

/-! ## What git and Bazel promise -/

/-- The answers of Bazel in two states are alike. -/
structure SameAnswers (earlier later : WorkspaceState D) : Prop where
  repositories : earlier.repositories = later.repositories
  batches : earlier.batches = later.batches
  resolver : earlier.environment.resolver = later.environment.resolver
  canonicalWorkspace : earlier.environment.canonicalWorkspace =
    later.environment.canonicalWorkspace
  encode : earlier.environment.encode = later.environment.encode
  markers : ∀ path, path ∈ markerLoadingInputs earlier.environment.markers ↔
    path ∈ markerLoadingInputs later.environment.markers

/-- A path the classifier does not guard. -/
structure Unguarded (inputs : ClassifyInputs D) (recipes : PartialRecipes) (path : String) :
    Prop where
  defining : isGraphDefiningPath path = false
  referenced : path ∉ inputs.moduleReferenced
  seed : path ∉ seedPaths inputs
  loaded : ∀ input ∈ recipes.loadInputs, isLoadedFrom path input = false
  pattern : ∀ glob ∈ inputs.rebuildPatterns, glob.matches path = false

/-- Two revisions that differ in the content of files the classifier does not guard. -/
structure GuardedAlike (inputs : ClassifyInputs D) (recipes : PartialRecipes) (old : TreeIndex) :
    Prop where
  file : ∀ path, old.get path ≠ inputs.tree.get path →
    (∃ object executable, old.get path = some ⟨object, .file executable⟩) ∧
      ∃ object executable, inputs.tree.get path = some ⟨object, .file executable⟩
  unguarded : ∀ path, old.get path ≠ inputs.tree.get path → Unguarded inputs recipes path

/-- What git and Bazel do in the states of a run. -/
structure Series.Reliable (series : Series) (Real : WorkspaceState D → Prop) : Prop where
  identified : ∀ ⦃state⦄, Real state → ∃ id, (series.tree state).id = some id
  /-- A tree is addressed by its content. -/
  addressed : ∀ ⦃earlier later⦄, Real earlier → Real later →
    (series.tree earlier).id = (series.tree later).id →
      series.tree earlier = series.tree later
  diff : ∀ ⦃earlier later id id' output entries⦄, Real earlier → Real later →
    (series.tree earlier).id = some id → (series.tree later).id = some id' →
    series.git.diffRaw id id' = .ok output → parseDiffRaw output = .ok entries →
      IsRawDiff entries (series.tree earlier) (series.tree later)
  /-- Source files load Starlark files. -/
  starlark : ∀ ⦃state⦄, Real state → ∀ batch ∈ state.batches ++ state.repositories,
    ∀ target ∈ batch.1, ∀ source, target.sourceFile = some source →
      ∀ label ∈ source.subinclude, isStarlark label = true
  /-- Bazel's answers depend on tracked files. -/
  tracked : ∀ ⦃earlier later⦄, Real earlier → Real later →
    series.tree earlier = series.tree later → SameAnswers earlier later
  /-- The tracked files they depend on are those the classifier guards. -/
  guarded : ∀ ⦃earlier later base recipes inputs⦄, series.Written Real earlier base →
    Real later → base.partialGraph = some recipes →
    series.inputs base (series.tree later) = .ok inputs →
    GuardedAlike inputs recipes (series.tree earlier) → SameAnswers earlier later

/-! ## Queries without targets -/

omit [HashFunction D] in
theorem Intake.add_of_none {target : Target} (h : hashTargetOf target = none) (intake : Intake D) :
    intake.add target = intake := by
  cases htype : target.type <;> simp only [hashTargetOf, htype, Option.map_eq_none_iff] at h <;>
    simp [Intake.add, htype, h]

omit [HashFunction D] in
theorem takeIn_of_none {targets : List Target} (h : targets.filterMap hashTargetOf = [])
    (digests : PreparedRules D) (recorder : Option RecipeRecorder) :
    takeIn targets digests recorder =
      { rules := digests.fill default, prepared := digests, recorder := recorder } := by
  have hnone : ∀ target ∈ targets, hashTargetOf target = none := List.filterMap_eq_nil_iff.mp h
  rw [takeIn]
  clear h
  induction targets with
  | nil => rfl
  | cons target rest ih =>
      rw [List.foldl_cons, Intake.add_of_none (hnone target List.mem_cons_self)]
      exact ih fun later hlater => hnone later (List.mem_cons_of_mem _ hlater)

/-- A generation without targets returns no hashes as soon as the seed files can be read. -/
theorem generate_nothing {options : HashOptions} {tree : TreeIndex}
    {contents : Option (StringMap String)} {targets : List Target} {digests : PreparedRules D}
    {environment : Environment D} (hcquery : options.bazel.useCquery = false)
    (hrepos : environment.resolver.scopedSources.repositories.isEmpty = true)
    (htargets : targets.filterMap hashTargetOf = []) {seedHash : D} {seeds : StringMap D}
    (hseed : hashSeedFiles environment.disk options.bazel.workspace options.seedFilepaths =
      .ok seedHash)
    (hseeds : bzlSeeds (options.atTreeWith contents tree) targets environment = .ok seeds) :
    ∃ full, hashTargetsWithEnvironment (options.atTreeWith contents tree) targets digests
      environment = .ok full ∧ full.hashes = ∅ := by
  have hmode : ¬ ((options.atTreeWith contents tree).partialTree.isSome = true ∧
      (options.atTreeWith contents tree).bazel.useCquery = true) := by
    rintro ⟨-, huse⟩
    exact absurd (hcquery.symm.trans huse) (by decide)
  have hseed' : hashSeedFiles environment.disk (options.atTreeWith contents tree).bazel.workspace
      (options.atTreeWith contents tree).seedFilepaths = .ok seedHash := hseed
  have hsources : (takeIn targets digests
      (newRecorder (options.atTreeWith contents tree) targets seedHash)).sourceTargets = [] := by
    rw [takeIn_of_none htargets]
  have hprepared : prepareTargets (options.atTreeWith contents tree) targets digests environment =
      prepareGraph (options.atTreeWith contents tree) environment seedHash seeds
        (takeIn targets digests (newRecorder (options.atTreeWith contents tree) targets seedHash))
        ((takeIn targets digests (newRecorder (options.atTreeWith contents tree) targets
          seedHash)).graph environment (options.atTreeWith contents tree) []) := by
    rw [prepareTargets, if_neg hmode, hseed', hseeds]
    dsimp only [bind, Except.bind, pure, Except.pure]
    rw [hsources]
    rfl
  have hstart : ∃ prepared recorder, prepareTargets (options.atTreeWith contents tree) targets
      digests environment = .ok prepared ∧ prepared.targets = [] ∧
      prepared.state.recorder = some recorder ∧ recorder.recipes.version = recipeVersion ∧
      recorder.recipes.seedHash = hexDigest seedHash := by
    rw [hprepared, prepareGraph, Graph.foldIsolatedRoot, if_pos hrepos, takeIn_of_none htargets]
    refine ⟨_, _, rfl, rfl, rfl, ?_, ?_⟩
    · exact (PartialRecipes.fields_eq (recordLoading_rest _ _ _ _).2).1
    · exact (PartialRecipes.fields_eq (recordLoading_rest _ _ _ _).2).2.1
  obtain ⟨prepared, recorder, hstart, hnone, hrecorder, hversion, hseedHash⟩ := hstart
  have hrun : prepared.run = .ok (prepared.state, []) := by
    rw [Prepared.run, hnone]
    rfl
  have hdecode : decodeDigest recorder.finish.seedHash = .ok seedHash := by
    rw [recorder.finish_rest.2.1, hseedHash, decodeDigest_hexDigest]
  have hevaluate : evaluate recorder.finish (targetKinds (∅ : StringMap (TargetHash D))) tree =
      (.ok ∅ : Result (StringMap (TargetHash D))) := by
    have hkinds : targetKinds (∅ : StringMap (TargetHash D)) = ∅ := rfl
    rw [evaluate, prepareEvaluation, if_neg (not_not.mpr (recorder.finish_rest.1.trans hversion)),
      hdecode, hkinds]
    rfl
  have hnil : (aggregateByLabel ([] : List (KeyedDigest D)) options.trackDeps).hashes = ∅ := rfl
  obtain ⟨full, hfull, hempty⟩ : ∃ full, hashFile (options.atTreeWith contents tree) environment
      prepared.state [] = .ok full ∧ full.hashes = ∅ := by
    rw [hashFile]
    dsimp only [HashOptions.atTreeWith]
    rw [hrecorder]
    dsimp only
    rw [hnil, hevaluate]
    exact ⟨_, rfl, rfl⟩
  refine ⟨full, ?_, hempty⟩
  rw [hashTargetsWithEnvironment, hstart, ok_bind, hrun]
  exact hfull

/-! ## Generations of a series -/

namespace Series

variable (series : Series)

/-- The records and the preparations a generation hands to the hasher in a state. -/
def handed (state : WorkspaceState D) : List Target × PreparedRules D :=
  handedOver (series.options.fromTree (series.tree state)) state.repositories state.batches
    state.environment

/-- A generation in a state that reads the seed files of some disk. -/
def generation (state : WorkspaceState D) (disk : Disk) : Result (HashFileData D) :=
  hashTargetsWithEnvironment (series.options.fromTree (series.tree state)) (series.handed state).1
    (series.handed state).2 { state.environment with disk := disk }

theorem nodup_handed (state : WorkspaceState D) : (names (series.handed state).1).Nodup :=
  nodup_names_deduplicateTargets _

/-- Hashing with Bazel's answers of an earlier state is hashing with those of the later one. -/
theorem handed_congr {earlier later : WorkspaceState D} (h : SameAnswers earlier later) :
    series.handed earlier = series.handed later := by
  have hworkspace : earlier.environment.workspace series.options =
      later.environment.workspace series.options := by
    rw [Environment.workspace, Environment.workspace, h.canonicalWorkspace]
  have hprehash : ∀ (prepared : PreparedRules D) (batches : Batches),
      prehashBatches earlier.environment.encode (series.options.fromTree (series.tree earlier))
          (earlier.environment.workspace (series.options.fromTree (series.tree earlier)))
          prepared batches =
        prehashBatches later.environment.encode (series.options.fromTree (series.tree later))
          (later.environment.workspace (series.options.fromTree (series.tree later)))
          prepared batches := by
    intro prepared batches
    have hearlier : earlier.environment.workspace
        (series.options.fromTree (series.tree earlier)) =
          later.environment.workspace (series.options.fromTree (series.tree later)) := hworkspace
    rw [hearlier, h.encode]
    rfl
  rw [handed, handed, handedOver, handedOver, h.repositories, h.batches]
  simp only [hprehash]

/-- The records handed over load what Bazel's records load. -/
theorem starlark_handed {Real : WorkspaceState D → Prop} (h : series.Reliable Real)
    {state : WorkspaceState D} (hstate : Real state) :
    ∀ target ∈ (series.handed state).1, ∀ source, target.sourceFile = some source →
      ∀ label ∈ source.subinclude, isStarlark label = true := by
  intro target htarget source hsource
  have hprehashed : ∀ (prepared : PreparedRules D) (batches : Batches),
      (∀ batch ∈ batches, batch ∈ state.batches ++ state.repositories) →
      target ∈ (prehashBatches state.environment.encode
        (series.options.fromTree (series.tree state))
        (state.environment.workspace (series.options.fromTree (series.tree state))) prepared
        batches).1 → ∀ label ∈ source.subinclude, isStarlark label = true := by
    intro prepared batches hsub hmem
    rw [prehashBatches] at hmem
    obtain ⟨⟨target', filed⟩, hflat, heq⟩ := List.mem_map.mp hmem
    obtain rfl : target' = target := heq
    obtain ⟨batch, hbatch, hprehash⟩ := List.mem_flatMap.mp hflat
    obtain ⟨record, hrecord, hprehash⟩ := List.mem_map.mp hprehash
    have hsame : record.sourceFile = some source := by
      rw [← hsource, ← show (prehash state.environment.encode _ _ batch.2 record).1 = target' from
        congrArg Prod.fst hprehash, prehash]
      cases record.rule <;> rfl
    exact h.starlark hstate batch (hsub batch hbatch) record hrecord source hsame
  rcases List.mem_append.mp (mem_deduplicateTargets htarget) with hqueried | hlowered
  · exact hprehashed SlotTable.empty _ (fun batch hbatch => List.mem_append_left _ hbatch) hqueried
  · exact hprehashed SlotTable.empty _ (fun batch hbatch => List.mem_append_right _ hbatch) hlowered

section Accepted

variable {series} {patterns : List Glob} {state : WorkspaceState D}

/-- A generation of the series is one by the streaming pipeline. -/
theorem generateHashes_eq (hvalid : validateHashOptions series.options = .ok ())
    (state : WorkspaceState D) :
    generateHashes (series.options.fromTree (series.tree state)) state.repositories
        state.batches state.environment =
      series.generation state state.environment.disk := by
  obtain ⟨-, -, hroot, -⟩ := validateHashOptions_ok hvalid
  have hroot' : (series.options.fromTree (series.tree state)).bazel.isolatedDependencyRoot =
      none := hroot
  rw [generateHashes, hroot']
  rfl

/-- The base is the file that is written, so it is one of bazel-diff's own files anyway. -/
theorem ownFiles_argsWith (base : Bool) :
    (series.argsWith base).ownFiles = (series.argsWith false).ownFiles := by
  apply Std.ExtTreeSet.ext_mem
  intro path
  have hmem : ∀ base, path ∈ (series.argsWith base).ownFiles ↔
      path = series.output ∨ series.args.depEdgesFile = some path := by
    intro base
    rw [GenerateHashesArgs.ownFiles, mem_foldl_insert, List.reduceOption_mem_iff, argsWith]
    cases base <;> simp [series.output_eq, eq_comm]
  rw [hmem, hmem]

/-- The arguments an invocation accepts do not depend on the base. -/
theorem Accepted.argsWith {options : HashOptions} {base : Bool}
    (h : Accepted (series.argsWith base) options patterns) (base' : Bool) :
    Accepted (series.argsWith base') options patterns :=
  ⟨h.valid, h.contentHashPath, h.modifiedFilepaths, h.targetType, h.patterns⟩

/-- Without a base an invocation generates. -/
theorem invoke_none (haccepted : Accepted (series.argsWith false) series.options patterns)
    {id : String} (hid : (series.tree state).id = some id) :
    series.invoke state none = series.generation state state.environment.disk := by
  rw [← generateHashes_eq haccepted.valid]
  exact partialGraphHashes_none haccepted rfl hid rfl

/-- With a base an invocation returns what the base gives, and generates when it gives nothing. -/
theorem invoke_some (haccepted : Accepted (series.argsWith false) series.options patterns)
    {id : String} (hid : (series.tree state).id = some id) {base : HashFileData D}
    {reused : Except String (HashFileData D)}
    (hreused : reuseBase series.git (series.argsWith true)
      ⟨series.options.seedFilepaths, patterns⟩ series.output base (series.tree state) id =
        .ok reused) :
    series.invoke state (some base) =
      reused.toOption.elim (series.generation state state.environment.disk) .ok := by
  have hreused' : reuseBase
      { series.git with snapshotWorkingTree := fun excluded => .ok (state.snapshot excluded) }
      (series.argsWith true) ⟨series.options.seedFilepaths, patterns⟩ series.output base
      (series.tree state) id = .ok reused := hreused
  have hsnapshot : (Except.ok (state.snapshot (series.argsWith true).ownFiles) :
      Except String TreeIndex) = .ok (series.tree state) := by
    rw [ownFiles_argsWith, tree]
  rw [← generateHashes_eq haccepted.valid]
  exact partialGraphHashes_some (Accepted.argsWith haccepted true) hsnapshot hid rfl rfl hreused'

end Accepted

end Series

/-! ## What the base gives -/

/-- A failure that is reported with a message. -/
def Reported (failure : Failure) : Prop :=
  ∃ message, failure = .error message

theorem reported_bail {α : Type} {Q : α → Prop} (message : String) :
    Meets Reported Q (bail message : Result α) :=
  .error ⟨message, rfl⟩

theorem reported_okOr {α : Type} {Q : α → Prop} (message : String) {a : Option α}
    (h : ∀ value, a = some value → Q value) : Meets Reported Q (okOr message a) := by
  cases a with
  | none => exact reported_bail message
  | some value => exact .ok (h value rfl)

theorem reported_gitAnswer {α : Type} (answer : Except String α) :
    Meets Reported (fun value => answer = .ok value) (gitAnswer answer) := by
  cases answer with
  | error message => exact reported_bail message
  | ok value => exact .ok rfl

theorem reported_parseDiffFields (fields : List (List UInt8)) :
    Meets Reported (fun _ => True) (parseDiffFields fields) := by
  induction fields using parseDiffFields.induct with
  | case1 => exact .ok trivial
  | case2 field rest ih =>
      rw [parseDiffFields]
      apply Meets.bind (reported_okOr _ fun _ _ => trivial)
      intro record _
      apply Meets.bind (reported_okOr _ fun _ _ => trivial)
      intro status _
      cases rest with
      | nil => exact reported_bail _
      | cons path rest =>
          have hrest : Meets Reported (fun _ => True) (parseDiffFields rest) := ih
          apply Meets.bind hrest
          intro entries _
          exact .ok trivial

omit [HashFunction D] in
theorem Git.classifyInputs_meets (git : Git) (baseRevision revision : String)
    (base : HashFileData D) (tree : TreeIndex) (policy : DerivationPolicy) :
    Meets Reported (fun inputs => inputs.base = base ∧ inputs.tree = tree ∧
      ∃ output, git.diffRaw baseRevision revision = .ok output ∧
        parseDiffRaw output = .ok inputs.diff)
      (git.classifyInputs baseRevision revision base tree policy) := by
  have hmodules : Meets Reported (fun _ : StringSet => True)
      (git.moduleReferenced revision tree) := by
    apply Meets.foldlM
    · intro file _ paths _
      split_ifs
      · exact .ok trivial
      · apply Meets.bind (reported_gitAnswer _)
        intro text _
        exact .ok trivial
    · trivial
  rw [classifyInputs]
  apply Meets.bind (reported_gitAnswer _)
  intro output houtput
  have hparsed := reported_parseDiffFields (diffFields output)
  cases hentries : parseDiffRaw output with
  | error failure =>
      rw [← parseDiffRaw, hentries] at hparsed
      cases hparsed with
      | error h => exact .error h
  | ok entries =>
      apply Meets.bind hmodules
      intro modules _
      exact .ok ⟨rfl, rfl, output, houtput, hentries⟩

/-- Whether an invocation does without Bazel: the base has the edges that are asked for, and
describes the revision or one it can be derived from. -/
def Series.Reuses (series : Series) (base : HashFileData D) (state : WorkspaceState D) : Prop :=
  ¬ (series.args.depEdgesFile.isSome = true ∧ base.depEdges.isEmpty = true ∧
      ¬ base.hashes.isEmpty = true) ∧
    (base.tree = (series.tree state).id ∨ ∃ changed unmatched,
      classify <$> series.inputs base (series.tree state) =
        (.ok (.derivable changed unmatched) : Result Classification))

namespace Series

variable {series : Series} {patterns : List Glob} {state : WorkspaceState D}
  {base : HashFileData D} {baseTree id : String} {recipes : PartialRecipes}

omit [HashFunction D] in
theorem inputs_eq (haccepted : Accepted (series.argsWith false) series.options patterns)
    {tree : TreeIndex} (hbase : base.tree = some baseTree) (hid : tree.id = some id) :
    series.inputs base tree = series.git.classifyInputs baseTree id base tree
      ⟨series.options.seedFilepaths, patterns⟩ := by
  have hpatterns : series.args.partialGraphRebuildPatterns.mapM Glob.new = .ok patterns :=
    haccepted.patterns
  rw [inputs, hpatterns, hbase, hid]
  rfl

/-- A base that describes the revision is returned as it is. -/
theorem reuseBase_same (hrecipes : base.partialGraph = some recipes)
    (hedges : ¬ (series.args.depEdgesFile.isSome = true ∧ base.depEdges.isEmpty = true ∧
      ¬ base.hashes.isEmpty = true))
    (hbase : base.tree = some id) (policy : DerivationPolicy) (path : String) :
    reuseBase series.git (series.argsWith true) policy path base (series.tree state) id =
      .ok (.ok base) := by
  have hedges' : ¬ ((series.argsWith true).depEdgesFile.isSome = true ∧
    base.depEdges.isEmpty = true ∧ ¬ base.hashes.isEmpty = true) := hedges
  rw [reuseBase, hrecipes, if_neg hedges', hbase]
  simp [pure, Except.pure]

/-- A base of another revision is derived from when the classifier allows it. -/
theorem reuseBase_derived (haccepted : Accepted (series.argsWith false) series.options patterns)
    (hrecipes : base.partialGraph = some recipes)
    (hedges : ¬ (series.args.depEdgesFile.isSome = true ∧ base.depEdges.isEmpty = true ∧
      ¬ base.hashes.isEmpty = true))
    (hbase : base.tree = some baseTree) (hid : (series.tree state).id = some id)
    (hne : baseTree ≠ id) {changed unmatched : List String}
    (hclass : classify <$> series.inputs base (series.tree state) =
      (.ok (.derivable changed unmatched) : Result Classification))
    {data : HashFileData D} (hderive : derive base (series.tree state) = .ok data)
    (path : String) :
    reuseBase series.git (series.argsWith true) ⟨series.options.seedFilepaths, patterns⟩ path
      base (series.tree state) id = .ok (.ok data) := by
  have hedges' : ¬ ((series.argsWith true).depEdgesFile.isSome = true ∧
    base.depEdges.isEmpty = true ∧ ¬ base.hashes.isEmpty = true) := hedges
  rw [inputs_eq haccepted hbase hid] at hclass
  rw [reuseBase, hrecipes, if_neg hedges', hbase]
  simp [hne, Git.classifyRevisions, hclass, caught, hderive, bind, Except.bind]

/-- Otherwise the base gives nothing. -/
theorem reuseBase_none (haccepted : Accepted (series.argsWith false) series.options patterns)
    (hrecipes : base.partialGraph = some recipes) (hbase : base.tree = some baseTree)
    (hid : (series.tree state).id = some id) (hnot : ¬ series.Reuses base state) (path : String) :
    ∃ reason, reuseBase series.git (series.argsWith true)
      ⟨series.options.seedFilepaths, patterns⟩ path base (series.tree state) id =
        .ok (.error reason) := by
  rw [reuseBase, hrecipes]
  by_cases hedges : (series.argsWith true).depEdgesFile.isSome = true ∧
      base.depEdges.isEmpty = true ∧ ¬ base.hashes.isEmpty = true
  · rw [if_pos hedges]
    exact ⟨_, rfl⟩
  · rw [if_neg hedges, hbase]
    obtain ⟨hne, hclass⟩ := not_or.mp fun h => hnot ⟨hedges, h⟩
    have hne' : baseTree ≠ id := fun heq => hne (by rw [hbase, hid, heq])
    rw [inputs_eq haccepted hbase hid] at hclass
    have hmeets := series.git.classifyInputs_meets baseTree id base (series.tree state)
      ⟨series.options.seedFilepaths, patterns⟩
    simp only [Option.isNone_some, Bool.false_eq_true, if_false, if_neg hne', Git.classifyRevisions,
      pure, Except.pure, bind, Except.bind]
    generalize series.git.classifyInputs baseTree id base (series.tree state)
      ⟨series.options.seedFilepaths, patterns⟩ = asked at hmeets hclass
    cases hmeets with
    | error hreported =>
        obtain ⟨message, rfl⟩ := hreported
        exact ⟨_, rfl⟩
    | @ok inputs _ =>
        cases hresult : classify inputs with
        | rebuild reason =>
            refine ⟨reason, ?_⟩
            simp [Functor.map, Except.map, hresult, caught]
        | derivable changed unmatched =>
            exact absurd ⟨changed, unmatched, congrArg Except.ok hresult⟩ hclass

end Series

/-! ## What a written entry is -/

omit [HashFunction D] in
/-- A derivable classification lets through changes of unguarded files only. -/
theorem guardedAlike_of_derivable {inputs : ClassifyInputs D} {recipes : PartialRecipes}
    {old : TreeIndex} {changed unmatched : List String}
    (hbase : inputs.base.partialGraph = some recipes)
    (h : classify inputs = .derivable changed unmatched)
    (hdiff : IsRawDiff inputs.diff old inputs.tree) : GuardedAlike inputs recipes old := by
  refine ⟨(sameShape_of_derivable h hdiff).file, fun path hne => ?_⟩
  obtain ⟨entry, hentry, rfl⟩ := hdiff.complete path hne
  obtain ⟨recipes', hrecipes', hentries⟩ := classify_derivable h
  obtain rfl := Option.some.inj (hbase.symm.trans hrecipes')
  have hnone : ¬ (ForcesRebuild inputs entry ∨
      ∃ input ∈ recipes.loadInputs, isLoadedFrom entry.path input = true) := by
    rw [← rebuildReason_isSome_iff, hentries entry hentry]
    exact Bool.false_ne_true
  obtain ⟨hforced, hloaded⟩ := not_or.mp hnone
  simp only [ForcesRebuild, not_or] at hforced
  obtain ⟨-, -, -, hdefining, hreferenced, hseed, hpattern⟩ := hforced
  refine ⟨by simpa using hdefining, hreferenced, hseed, fun input hinput => ?_,
    fun glob hglob => ?_⟩
  · exact Bool.eq_false_iff.mpr fun hbelow => hloaded ⟨input, hinput, hbelow⟩
  · exact Bool.eq_false_iff.mpr fun hmatches => hpattern ⟨glob, hglob, hmatches⟩

/-- What an entry shows to later invocations is what a generation in its state builds from the
seed files of some disk. -/
structure Series.Describes (series : Series) (state : WorkspaceState D)
    (data : HashFileData D) (disk : Disk) (full : HashFileData D) : Prop where
  generated : series.generation state disk = .ok full
  hashes : data.hashes = full.hashes
  recipes : data.partialGraph = full.partialGraph
  tree : data.tree = full.tree

namespace Series

variable {series : Series} {patterns : List Glob} {Real : WorkspaceState D → Prop}
  {earlier later state : WorkspaceState D} {base data full : HashFileData D} {disk : Disk}

/-- The seed files of a series on a disk. -/
def seedFiles (series : Series) (disk : Disk) : Result D :=
  hashSeedFiles disk series.options.bazel.workspace series.options.seedFilepaths

/-- A generation read the seed files, and keeps their digest with its recipes. -/
theorem generation_seeded (h : series.generation state disk = .ok full) :
    ∃ (seedHash : D) (recipes : PartialRecipes), series.seedFiles disk = .ok seedHash ∧
      full.partialGraph = some recipes ∧ recipes.seedHash = hexDigest seedHash ∧
      full.tree = (series.tree state).id := by
  obtain ⟨prepared, hprepared, -⟩ := bind_eq_ok h
  obtain ⟨seedHash, seeds, sources, graph, aliasing, hseed, -⟩ := prepareTargets_ok hprepared
  obtain ⟨recipes, hrecipes, hhex, htree⟩ :=
    generated_seedHash (series.nodup_handed state) rfl hseed h
  exact ⟨seedHash, recipes, hseed, hrecipes, hhex, htree⟩

/-- Every hash of a generation was made with the digest of the seed files. -/
theorem generation_seededBy {seedHash : D} (hseed : series.seedFiles disk = .ok seedHash)
    (h : series.generation state disk = .ok full) {label : String} {hash : TargetHash D}
    (hlabel : full.hashes[label]? = some hash) :
    ∃ direct, hash.directHash = .sha256 direct ∧ SeededBy seedHash hash.kind direct := by
  have htree : (series.options.fromTree (series.tree state)).partialTree =
      some (series.tree state) := rfl
  have hseed' : hashSeedFiles ({ state.environment with disk := disk } : Environment D).disk
      (series.options.fromTree (series.tree state)).bazel.workspace
      (series.options.fromTree (series.tree state)).seedFilepaths = .ok seedHash := hseed
  exact generated_seededBy (series.nodup_handed state) htree hseed' h hlabel

/-- Two generations at revisions of one shape, with alike answers and the same seed files. -/
theorem sameLoading (hsame : SameAnswers earlier later) {disk₁ disk₂ : Disk}
    (hseed : (series.seedFiles disk₁ : Result D) = series.seedFiles disk₂) :
    SameLoading series.options { earlier.environment with disk := disk₁ }
      { later.environment with disk := disk₂ } where
  resolver := hsame.resolver
  canonicalWorkspace := hsame.canonicalWorkspace
  encode := hsame.encode
  seedHash := hseed
  markers := hsame.markers

/-- What an entry gives in a later state of the same shape is what a generation there builds from
the seed files the entry was built from. -/
theorem Describes.carried (hreliable : series.Reliable Real)
    (hvalid : validateHashOptions series.options = .ok ()) (hearlier : Real earlier)
    (h : series.Describes earlier base disk full) (hsame : SameAnswers earlier later)
    (hshape : SameShape (series.tree earlier) (series.tree later)) {disk' : Disk}
    (hseed : (series.seedFiles disk : Result D) = series.seedFiles disk') :
    ∃ full', series.generation later disk' = .ok full' ∧
      full'.partialGraph = base.partialGraph ∧ full'.tree = (series.tree later).id ∧
      derive base (series.tree later) =
        .ok { base with hashes := full'.hashes, tree := (series.tree later).id } := by
  obtain ⟨seedHash, recipes, -, hrecipes, -, -⟩ := generation_seeded h.generated
  obtain ⟨full', hfull', hsameRecipes, htree, -, hderive⟩ := derive_of_sameShape hvalid
    (series.nodup_handed earlier) (sameLoading hsame hseed)
    (series.starlark_handed hreliable hearlier) hshape (some (series.tree earlier).contentHashes)
    (some (series.tree later).contentHashes) h.generated hrecipes
  have hbase : base.partialGraph = some recipes := h.recipes.trans hrecipes
  refine ⟨full', ?_, hsameRecipes.trans hbase.symm, htree, hderive base h.hashes hbase⟩
  rw [generation, ← series.handed_congr hsame]
  exact hfull'

/-- At one revision an entry is what a generation builds from the same seed files. -/
theorem Describes.at_same_tree (hreliable : series.Reliable Real)
    (hvalid : validateHashOptions series.options = .ok ()) (hearlier : Real earlier)
    (h : series.Describes earlier base disk full) (hsame : SameAnswers earlier later)
    (htree : series.tree earlier = series.tree later) {disk' : Disk}
    (hseed : (series.seedFiles disk : Result D) = series.seedFiles disk') :
    ∃ full', series.generation later disk' = .ok full' ∧
      series.Describes later base disk' full' := by
  have hshape : SameShape (series.tree earlier) (series.tree later) := by
    rw [htree]
    exact ⟨fun path hne => absurd rfl hne, fun _ _ => rfl⟩
  obtain ⟨full', hfull', hrecipes', htree', hderive⟩ :=
    h.carried hreliable hvalid hearlier hsame hshape hseed
  obtain ⟨seedHash, recipes, -, hrecipes, -, hid⟩ := generation_seeded h.generated
  have hgenerated : hashTargetsWithEnvironment (series.options.atTreeWith
      (some (series.tree earlier).contentHashes) (series.tree earlier)) (series.handed earlier).1
      (series.handed earlier).2 { earlier.environment with disk := disk } = .ok full :=
    h.generated
  obtain ⟨hevaluate, -⟩ := evaluate_of_generated hgenerated hrecipes
  have hhashes : full'.hashes = base.hashes := by
    rw [derive, h.recipes, hrecipes, h.hashes, ← htree] at hderive
    simp only [okOr, bind, Except.bind, hevaluate] at hderive
    rw [h.hashes]
    exact (congrArg HashFileData.hashes (Except.ok.inj hderive)).symm
  refine ⟨full', hfull', hfull', hhashes.symm, hrecipes'.symm, ?_⟩
  rw [htree', h.tree, hid, htree]

/-- An invocation that does without Bazel returns what a generation builds from the seed files
its base was built from. -/
theorem invoke_reused (hreliable : series.Reliable Real)
    (haccepted : Accepted (series.argsWith false) series.options patterns)
    (hwritten : series.Written Real earlier base) (hearlier : Real earlier)
    (h : series.Describes earlier base disk full) (hstate : Real state)
    (hreuses : series.Reuses base state) :
    ∃ data full', series.invoke state (some base) = .ok data ∧
      series.Describes state data disk full' ∧
      targetKinds data.hashes = targetKinds base.hashes := by
  obtain ⟨hedges, hreuses⟩ := hreuses
  obtain ⟨id, hid⟩ := hreliable.identified hstate
  obtain ⟨baseTree, hbaseTree⟩ := hreliable.identified hearlier
  obtain ⟨seedHash, recipes, -, hrecipes, -, hfullTree⟩ := generation_seeded h.generated
  have hbase : base.partialGraph = some recipes := h.recipes.trans hrecipes
  have hrevision : base.tree = (series.tree earlier).id := h.tree.trans hfullTree
  by_cases hsameTree : base.tree = (series.tree state).id
  · have htree : series.tree earlier = series.tree state :=
      hreliable.addressed hearlier hstate (hrevision.symm.trans hsameTree)
    obtain ⟨full', -, hdescribes⟩ := h.at_same_tree hreliable haccepted.valid hearlier
      (hreliable.tracked hearlier hstate htree) htree rfl
    exact ⟨base, full', invoke_some haccepted hid
      (reuseBase_same hbase hedges (hsameTree.trans hid) _ _), hdescribes, rfl⟩
  · obtain ⟨changed, unmatched, hclass⟩ := hreuses.resolve_left hsameTree
    have hbaseId : base.tree = some baseTree := hrevision.trans hbaseTree
    have hne : baseTree ≠ id := fun heq => hsameTree (by rw [hbaseId, hid, heq])
    have hasked := inputs_eq haccepted hbaseId hid
    obtain ⟨inputs, hinputs, hderivable⟩ : ∃ inputs,
        series.inputs base (series.tree state) = .ok inputs ∧
          classify inputs = .derivable changed unmatched := by
      generalize series.inputs base (series.tree state) = asked at hclass
      cases asked with
      | error failure => cases hclass
      | ok inputs => exact ⟨inputs, rfl, Except.ok.inj hclass⟩
    obtain ⟨hinputsBase, hinputsTree, output, houtput, hparsed⟩ :=
      (series.git.classifyInputs_meets baseTree id base (series.tree state)
        ⟨series.options.seedFilepaths, patterns⟩).ensures inputs (hasked ▸ hinputs)
    have hdiff : IsRawDiff inputs.diff (series.tree earlier) inputs.tree := by
      rw [hinputsTree]
      exact hreliable.diff hearlier hstate hbaseTree hid houtput hparsed
    have hsame : SameAnswers earlier state :=
      hreliable.guarded hwritten hstate hbase hinputs
        (guardedAlike_of_derivable (hinputsBase ▸ hbase) hderivable hdiff)
    have hshape : SameShape (series.tree earlier) (series.tree state) := by
      rw [← hinputsTree]
      exact sameShape_of_derivable hderivable hdiff
    obtain ⟨full', hfull', hrecipes', htree', hderive⟩ :=
      h.carried hreliable haccepted.valid hearlier hsame hshape rfl
    refine ⟨_, full', invoke_some haccepted hid
      (reuseBase_derived haccepted hbase hedges hbaseId hid hne hclass hderive _),
      ⟨hfull', rfl, hrecipes'.symm, htree'.symm⟩, ?_⟩
    rw [derive, hbase] at hderive
    obtain ⟨_, hsome, hderive⟩ := bind_eq_ok hderive
    cases hsome
    obtain ⟨hashes, hhashes, hderive⟩ := bind_eq_ok hderive
    obtain rfl : hashes = full'.hashes := congrArg HashFileData.hashes (Except.ok.inj hderive)
    exact targetKinds_evaluate hhashes

/-- Otherwise it generates, as it does without a base. -/
theorem invoke_generates (hreliable : series.Reliable Real)
    (haccepted : Accepted (series.argsWith false) series.options patterns)
    (hearlier : Real earlier) (h : series.Describes earlier base disk full) (hstate : Real state)
    (hnot : ¬ series.Reuses base state) :
    series.invoke state (some base) = series.invoke state none := by
  obtain ⟨id, hid⟩ := hreliable.identified hstate
  obtain ⟨baseTree, hbaseTree⟩ := hreliable.identified hearlier
  obtain ⟨seedHash, recipes, -, hrecipes, -, hfullTree⟩ := generation_seeded h.generated
  obtain ⟨reason, hreason⟩ := reuseBase_none haccepted (h.recipes.trans hrecipes)
    ((h.tree.trans hfullTree).trans hbaseTree) hid hnot series.output
  rw [invoke_some haccepted hid hreason, invoke_none haccepted hid]
  rfl

/-- Every entry of a run is what a generation in its state builds from the seed files of some
disk. -/
theorem written_describes (hreliable : series.Reliable Real)
    (h : series.Written Real state base) :
    Real state ∧ (∃ patterns, Accepted (series.argsWith false) series.options patterns) ∧
      ∃ disk full, series.Describes state base disk full := by
  induction h with
  | generated hreal h =>
      obtain ⟨patterns, haccepted⟩ := accepted_of_ok h
      obtain ⟨id, hid⟩ := hreliable.identified hreal
      rw [invoke_none haccepted hid] at h
      exact ⟨hreal, ⟨patterns, haccepted⟩, _, _, h, rfl, rfl, rfl⟩
  | @rebased earlier state base data hbase hreal h ih =>
      obtain ⟨hearlier, ⟨patterns, haccepted⟩, disk, full, hdescribes⟩ := ih
      obtain ⟨id, hid⟩ := hreliable.identified hreal
      refine ⟨hreal, ⟨patterns, haccepted⟩, ?_⟩
      by_cases hreuses : series.Reuses base state
      · obtain ⟨data', full', hdata', hnext, -⟩ :=
          invoke_reused hreliable haccepted hbase hearlier hdescribes hreal hreuses
        obtain rfl := Except.ok.inj (h.symm.trans hdata')
        exact ⟨disk, full', hnext.generated, hnext.hashes, hnext.recipes, hnext.tree⟩
      · rw [invoke_generates hreliable haccepted hearlier hdescribes hreal hreuses,
          invoke_none haccepted hid] at h
        exact ⟨_, _, h, rfl, rfl, rfl⟩

/-! ## With a base and without -/

omit [HashFunction D] in
theorem targetKinds_eq_empty (hashes : StringMap (TargetHash D)) :
    targetKinds hashes = ∅ ↔ hashes = ∅ := by
  rw [targetKinds]
  exact Std.ExtTreeMap.map_eq_empty_iff

/-- The digest of the seed files an entry keeps. -/
def recordedSeed (base : HashFileData D) : Result D := do
  let recipes ← okOr "no recipes" base.partialGraph
  decodeDigest recipes.seedHash

/-- Without targets a generation returns no hashes, whatever the seed files hold. -/
theorem generation_nothing (hvalid : validateHashOptions series.options = .ok ())
    (h : series.generation state disk = .ok full) (hnone : full.hashes = ∅) {disk' : Disk}
    {seedHash : D} (hseed : series.seedFiles disk' = .ok seedHash) :
    ∃ full', series.generation state disk' = .ok full' ∧ full'.hashes = ∅ := by
  obtain ⟨prepared, hprepared, -⟩ := bind_eq_ok h
  obtain ⟨seedHash', seeds, sources, graph, aliasing, hseed', hseeds, -⟩ :=
    prepareTargets_ok hprepared
  obtain ⟨hcquery, -, hroot, -⟩ := validateHashOptions_ok hvalid
  have hroot' : (series.options.fromTree (series.tree state)).bazel.isolatedDependencyRoot =
      none := hroot
  have hrepos := scopedRepositories_of_ok hroot' h
  have htargets : (series.handed state).1.filterMap hashTargetOf = [] :=
    targets_of_no_hashes (series.nodup_handed state) rfl hseed' h hnone
  have hseeds' : bzlSeeds (series.options.fromTree (series.tree state)) (series.handed state).1
      { state.environment with disk := disk' } = .ok seeds := by
    rw [← hseeds, bzlSeeds, bzlSeeds]
    split_ifs
    · rfl
    · apply packageBzlSeeds_congr
      intro target htarget source hsource label hlabel
      have htree : ∀ disk, ((({ state.environment with disk := disk } : Environment D).sourceHasher
          (series.options.fromTree (series.tree state))).softDigest label : Result (Option D)) =
            .ok (softDigest (series.tree state) label) :=
        fun disk => SourceHasher.softDigest_of_tree rfl label
      rw [htree, htree]
  exact generate_nothing hcquery hrepos htargets hseed hseeds'

/-- An invocation returns the same hashes with a base and without exactly when it generates
anyway, or the seed files have the digest the base keeps, or there is nothing to hash. -/
theorem base_changes_nothing_iff (hinj : Function.Injective (digest : List UInt8 → D))
    (hreliable : series.Reliable Real) (hwritten : series.Written Real earlier base)
    (hstate : Real state) :
    (·.hashes) <$> series.invoke state (some base) = (·.hashes) <$> series.invoke state none ↔
      ¬ series.Reuses base state ∨
        series.seedFiles state.environment.disk = recordedSeed base ∨
        base.hashes = ∅ ∧ ∃ seedHash : D,
          series.seedFiles state.environment.disk = .ok seedHash := by
  obtain ⟨hearlier, ⟨patterns, haccepted⟩, disk, full, hdescribes⟩ :=
    written_describes hreliable hwritten
  obtain ⟨id, hid⟩ := hreliable.identified hstate
  by_cases hreuses : series.Reuses base state
  · obtain ⟨data, full', hdata, hnext, hkinds⟩ :=
      invoke_reused hreliable haccepted hwritten hearlier hdescribes hstate hreuses
    obtain ⟨seedHash, recipes, hseed, hrecipes, hhex, -⟩ := generation_seeded hdescribes.generated
    have hrecorded : recordedSeed base = .ok seedHash := by
      rw [recordedSeed, hdescribes.recipes, hrecipes]
      exact (congrArg decodeDigest hhex).trans (decodeDigest_hexDigest seedHash)
    have hempty : base.hashes = ∅ ↔ data.hashes = ∅ := by
      rw [← targetKinds_eq_empty, ← hkinds, targetKinds_eq_empty]
    rw [hdata, invoke_none haccepted hid, hrecorded, hempty]
    constructor
    · intro hsame
      cases hfull : series.generation state state.environment.disk with
      | error failure =>
          rw [hfull] at hsame
          cases hsame
      | ok current =>
          rw [hfull] at hsame
          have hhashes : data.hashes = current.hashes := Except.ok.inj hsame
          obtain ⟨seedHash', -, hseed', -⟩ := generation_seeded hfull
          refine Or.inr ?_
          by_cases hnone : data.hashes = ∅
          · exact Or.inr ⟨hnone, seedHash', hseed'⟩
          · obtain ⟨label, hlabel⟩ : ∃ label, label ∈ data.hashes := by
              simpa [Std.ExtTreeMap.eq_empty_iff_forall_not_mem] using hnone
            obtain ⟨hash, hhash⟩ :=
              Option.isSome_iff_exists.mp (Std.ExtTreeMap.mem_iff_isSome_getElem?.mp hlabel)
            obtain ⟨direct, hdirect, hseeded⟩ := generation_seededBy hseed hnext.generated
              (hnext.hashes ▸ hhash)
            obtain ⟨direct', hdirect', hseeded'⟩ := generation_seededBy hseed' hfull
              (hhashes ▸ hhash)
            obtain rfl := Digest.sha256.inj (hdirect.symm.trans hdirect')
            left
            rw [hseed', hseeded'.inj hinj hseeded]
    · rintro (hnot | hagree | ⟨hnone, seedHash', hseed'⟩)
      · exact absurd hreuses hnot
      · obtain ⟨current, hcurrent, hsame⟩ := hnext.at_same_tree hreliable haccepted.valid hstate
          (hreliable.tracked hstate hstate rfl) rfl (hseed.trans hagree.symm)
        rw [hcurrent]
        exact congrArg Except.ok hsame.hashes
      · obtain ⟨current, hcurrent, hnothing⟩ :=
          generation_nothing haccepted.valid hnext.generated (hnext.hashes ▸ hnone) hseed'
        rw [hcurrent]
        exact congrArg Except.ok (hnone.trans hnothing.symm)
  · rw [invoke_generates hreliable haccepted hearlier hdescribes hstate hreuses]
    exact iff_of_true rfl (Or.inl hreuses)

end Series

/-! ## A seed file git ignores -/

/-- A workspace with one tracked source, and a seed file that git ignores. -/
def seedState (content : String) : WorkspaceState Preimage where
  snapshot _ := oneFileTree "1"
  repositories := []
  batches := [([{ type := .sourceFile, sourceFile := some { name := "//p:a" } }], none)]
  environment :=
    { Environment.bare with
      disk := { Environment.bare.disk with read := fun _ => .ok (utf8 content) } }

/-- The states of that workspace. -/
def SeedStates (state : WorkspaceState Preimage) : Prop :=
  ∃ content, state = seedState content

/-- Invocations that read the seed file. -/
def seedSeries : Series where
  git :=
    { workspace := { path := "" }
      diffRaw := fun _ _ => .ok []
      showFile := fun _ file => .error ("no such file " ++ file)
      snapshotWorkingTree := fun _ => .error "no working tree" }
  args := { outputPath := some "hashes.json" }
  options := { seedFilepaths := ["seed.txt"] }
  output := "hashes.json"
  output_eq := rfl

theorem seedSeries_reliable : seedSeries.Reliable SeedStates where
  identified := by
    rintro state ⟨content, rfl⟩
    exact ⟨"1", rfl⟩
  addressed := by
    rintro earlier later ⟨content, rfl⟩ ⟨content', rfl⟩ -
    rfl
  diff := by
    rintro earlier later id id' output entries ⟨content, rfl⟩ ⟨content', rfl⟩ - - houtput hparsed
    cases houtput
    cases hparsed
    exact ⟨fun path hne => absurd rfl hne, by simp, by simp⟩
  starlark := by
    rintro state ⟨content, rfl⟩ batch hbatch target htarget source hsource label hlabel
    obtain rfl := List.mem_singleton.mp hbatch
    obtain rfl := List.mem_singleton.mp htarget
    cases hsource
    cases hlabel
  tracked := by
    rintro earlier later ⟨content, rfl⟩ ⟨content', rfl⟩ -
    exact ⟨rfl, rfl, rfl, rfl, rfl, fun _ => Iff.rfl⟩
  guarded := by
    rintro earlier later base recipes inputs hwritten ⟨content', rfl⟩ - - -
    have hearlier : SeedStates earlier := by
      cases hwritten with
      | generated hreal => exact hreal
      | rebased hbase hreal => exact hreal
    obtain ⟨content, rfl⟩ := hearlier
    exact ⟨rfl, rfl, rfl, rfl, rfl, fun _ => Iff.rfl⟩

/-- The seed file has changed, git reports no change, and the base is returned as it is. -/
theorem ignored_seed_goes_unseen :
    seedSeries.Reliable SeedStates ∧
    ∃ base, seedSeries.Written SeedStates (seedState "1") base ∧
      (·.hashes) <$> seedSeries.invoke (seedState "2") (some base) ≠
        (·.hashes) <$> seedSeries.invoke (seedState "2") none := by
  have hruns : (do
      let data ← seedSeries.invoke (seedState "1") none
      let rebased ← seedSeries.invoke (seedState "2") (some (seedSeries.saved data))
      let generated ← seedSeries.invoke (seedState "2") none
      return decide (rebased.hashes = generated.hashes)) = (.ok false : Result Bool) := by
    decide +kernel
  obtain ⟨data, hdata, hruns⟩ := bind_eq_ok hruns
  obtain ⟨rebased, hrebased, hruns⟩ := bind_eq_ok hruns
  obtain ⟨generated, hgenerated, hruns⟩ := bind_eq_ok hruns
  have hne : rebased.hashes ≠ generated.hashes := of_decide_eq_false (Except.ok.inj hruns)
  refine ⟨seedSeries_reliable, _, .generated ⟨"1", rfl⟩ hdata, ?_⟩
  rw [hrebased, hgenerated]
  exact fun hsame => hne (Except.ok.inj hsame)

theorem base_changes_nothing_unchanged_seed :
    ∃ base, seedSeries.Written SeedStates (seedState "1") base ∧
      (·.hashes) <$> seedSeries.invoke (seedState "1") (some base) =
        (·.hashes) <$> seedSeries.invoke (seedState "1") none := by
  have hruns : (do
      let data ← seedSeries.invoke (seedState "1") none
      let seedHash ← seedSeries.seedFiles (seedState "1").environment.disk
      let recorded : Preimage ← Series.recordedSeed (seedSeries.saved data)
      return decide (seedHash = recorded)) = (.ok true : Result Bool) := by
    decide +kernel
  obtain ⟨data, hdata, hruns⟩ := bind_eq_ok hruns
  obtain ⟨seedHash, hseed, hruns⟩ := bind_eq_ok hruns
  obtain ⟨recorded, hrecorded, hruns⟩ := bind_eq_ok hruns
  have hsame : seedHash = recorded := of_decide_eq_true (Except.ok.inj hruns)
  have hwritten : seedSeries.Written SeedStates (seedState "1") (seedSeries.saved data) :=
    .generated ⟨"1", rfl⟩ hdata
  refine ⟨_, hwritten, ?_⟩
  apply (Series.base_changes_nothing_iff Preimage.digest_injective seedSeries_reliable hwritten
    ⟨"1", rfl⟩).mpr
  refine Or.inr (Or.inl ?_)
  rw [hseed, hrecorded, hsame]

end BazelDiff
