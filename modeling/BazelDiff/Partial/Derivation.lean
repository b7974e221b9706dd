/-
# A derivation is a generation that was not run

An entry generated in partial-graph mode at one revision, re-evaluated at another that
the classifier calls derivable, is the entry a generation there would have built. The
traversal of the second generation runs in lockstep with the first one's, because the
classifier lets through only changes that leave every question the traversal asks
answered alike, so the two record the same recipes.
-/

import BazelDiff.Hash.Prepare
import BazelDiff.Partial.Classify

namespace BazelDiff

open Text HashFunction Outcome

variable {D : Type} [HashFunction D]

/-! ## The raw diff of two trees -/

/-- The modes under which a tree can list an entry, and the mode of a missing one. -/
def modesOf : Option TreeEntry → List String
  | none => ["000000"]
  | some entry =>
      match entry.kind with
      | .file false => ["100644", "100664"]
      | .file true => ["100755"]
      | .symlink => ["120000"]
      | .submodule => ["160000"]

/-- A raw diff reports every path at which two trees differ, with its modes in both. -/
structure IsRawDiff (diff : List DiffEntry) (old new : TreeIndex) : Prop where
  complete : ∀ path, old.get path ≠ new.get path → ∃ entry ∈ diff, entry.path = path
  oldMode : ∀ entry ∈ diff, entry.oldMode ∈ modesOf (old.get entry.path)
  newMode : ∀ entry ∈ diff, entry.newMode ∈ modesOf (new.get entry.path)

/-- A regular mode is the mode of a file. -/
theorem isFile_of_isRegularMode {mode : String} {entry : Option TreeEntry}
    (hregular : isRegularMode mode = true) (hmode : mode ∈ modesOf entry) :
    ∃ object executable, entry = some ⟨object, .file executable⟩ := by
  cases entry with
  | none =>
      obtain rfl : mode = "000000" := by simpa [modesOf] using hmode
      exact absurd hregular (by decide)
  | some entry =>
      obtain ⟨object, kind⟩ := entry
      cases kind with
      | file executable => exact ⟨object, executable, rfl⟩
      | symlink =>
          obtain rfl : mode = "120000" := by simpa [modesOf] using hmode
          exact absurd hregular (by decide)
      | submodule =>
          obtain rfl : mode = "160000" := by simpa [modesOf] using hmode
          exact absurd hregular (by decide)

/-! ## What a derivable classification says about the trees -/

omit [HashFunction D] in
theorem classifyEntries_derivable {inputs : ClassifyInputs D} {recipes : PartialRecipes}
    {entries : List DiffEntry} {sources unmatched changed paths : List String}
    (h : classifyEntries inputs recipes entries sources unmatched = .derivable changed paths) :
    ∀ entry ∈ entries, rebuildReason inputs recipes entry = none := by
  induction entries generalizing sources unmatched with
  | nil => simp
  | cons first rest ih =>
      rw [classifyEntries] at h
      cases hreason : rebuildReason inputs recipes first with
      | some reason => simp [hreason] at h
      | none =>
          simp only [hreason] at h
          intro entry hentry
          rcases List.mem_cons.mp hentry with rfl | hrest
          · exact hreason
          · split_ifs at h
            · exact ih h entry hrest
            · exact ih h entry hrest

omit [HashFunction D] in
theorem classify_derivable {inputs : ClassifyInputs D} {changed paths : List String}
    (h : classify inputs = .derivable changed paths) :
    ∃ recipes, inputs.base.partialGraph = some recipes ∧
      ∀ entry ∈ inputs.diff, rebuildReason inputs recipes entry = none := by
  rw [classify] at h
  cases hrecipes : inputs.base.partialGraph with
  | none => simp [hrecipes] at h
  | some recipes =>
      refine ⟨recipes, rfl, ?_⟩
      simp only [hrecipes] at h
      split at h
      · cases h
      · exact classifyEntries_derivable h

omit [HashFunction D] in
/-- A change the classifier lets through rewrites a regular file Bazel does not load. -/
theorem rebuildReason_none {inputs : ClassifyInputs D} {recipes : PartialRecipes}
    {entry : DiffEntry} (h : rebuildReason inputs recipes entry = none) :
    isRegularMode entry.oldMode = true ∧ isRegularMode entry.newMode = true ∧
      isGraphDefiningPath entry.path = false := by
  rw [rebuildReason] at h
  split_ifs at h with hstatus hmode hgraph
  rw [Bool.or_eq_true, not_or] at hmode
  exact ⟨by simpa using hmode.1, by simpa using hmode.2, by simpa using hgraph⟩

/-- Two trees whose differences the classifier lets through. -/
structure SameShape (old new : TreeIndex) : Prop where
  file : ∀ path, old.get path ≠ new.get path →
    (∃ object executable, old.get path = some ⟨object, .file executable⟩) ∧
      ∃ object executable, new.get path = some ⟨object, .file executable⟩
  loaded : ∀ path, isGraphDefiningPath path = true → old.get path = new.get path

omit [HashFunction D] in
theorem sameShape_of_derivable {inputs : ClassifyInputs D} {old : TreeIndex}
    {changed paths : List String} (h : classify inputs = .derivable changed paths)
    (hdiff : IsRawDiff inputs.diff old inputs.tree) : SameShape old inputs.tree := by
  obtain ⟨recipes, -, hentries⟩ := classify_derivable h
  refine ⟨fun path hne => ?_, fun path hgraph => ?_⟩
  · obtain ⟨entry, hentry, rfl⟩ := hdiff.complete path hne
    obtain ⟨hold, hnew, -⟩ := rebuildReason_none (hentries entry hentry)
    exact ⟨isFile_of_isRegularMode hold (hdiff.oldMode entry hentry),
      isFile_of_isRegularMode hnew (hdiff.newMode entry hentry)⟩
  · by_contra hne
    obtain ⟨entry, hentry, rfl⟩ := hdiff.complete path hne
    obtain ⟨-, -, hnot⟩ := rebuildReason_none (hentries entry hentry)
    exact absurd hgraph (by simp [hnot])

/-- Trees of the same shape track the same files. -/
theorem SameShape.isSome_softDigest {old new : TreeIndex} (h : SameShape old new)
    (label : String) :
    (softDigest old label : Option D).isSome = (softDigest new label : Option D).isSome := by
  rw [Bool.eq_iff_iff, softDigest_isSome, softDigest_isSome]
  refine exists_congr fun path => ?_
  by_cases hsame : old.get path = new.get path
  · rw [hsame]
  · obtain ⟨⟨_, _, hold⟩, _, _, hnew⟩ := h.file path hsame
    simp [hold, hnew]

/-- Whether a label or a path is one of a Starlark file. -/
def isStarlark (text : String) : Bool :=
  hasSuffix ".bzl" text || hasSuffix ".scl" text

theorem isGraphDefiningPath_of_isStarlark {path : String} (h : isStarlark path = true) :
    isGraphDefiningPath path = true := by
  have hname : isStarlark (baseName path) = true := by
    rw [isStarlark, Bool.or_eq_true] at h ⊢
    exact h.imp (hasSuffix_getLast_split (by decide) · path)
      (hasSuffix_getLast_split (by decide) · path)
  rw [isStarlark, Bool.or_eq_true] at hname
  rcases hname with hbzl | hscl
  · simp only [isGraphDefiningPath, hbzl, Bool.or_true, Bool.true_or]
  · simp only [isGraphDefiningPath, hscl, Bool.or_true, Bool.true_or]

theorem hasSuffix_mainRepoPath {label path extension : String} (hslash : '/' ∉ extension.toList)
    (hcolon : ':' ∉ extension.toList) (h : hasSuffix extension label = true)
    (hpath : mainRepoPath label = some path) : hasSuffix extension path = true := by
  obtain ⟨body, hbody, rfl⟩ := Option.map_eq_some_iff.mp hpath
  refine hasSuffix_replaceChar hcolon (hasSuffix_trimStart hcolon ?_)
  have hstrip : ∀ marker : List Char, label.toList = (marker ++ ['/']) ++ body.toList →
      hasSuffix extension body = true := by
    intro marker hlabel
    rw [hasSuffix, List.isSuffixOf_iff_suffix, hlabel, List.append_assoc] at h
    rw [hasSuffix, List.isSuffixOf_iff_suffix]
    exact suffix_of_suffix_append_cons hslash h
  rw [mainRepoBody, Option.or_eq_some_iff, Option.or_eq_some_iff] at hbody
  simp only [stripPrefix_eq_some_iff] at hbody
  rcases hbody with hbody | ⟨-, hbody | ⟨-, hbody⟩⟩
  · exact hstrip ['@', '@', '/'] hbody
  · exact hstrip ['@', '/'] hbody
  · exact hstrip ['/'] hbody

/-- A Starlark file has the same soft digest in trees of the same shape. -/
theorem SameShape.softDigest_eq {old new : TreeIndex} (h : SameShape old new) {label : String}
    (hlabel : isStarlark label = true) :
    (softDigest old label : Option D) = softDigest new label := by
  refine softDigest_congr fun path hpath => h.loaded path ?_
  refine isGraphDefiningPath_of_isStarlark ?_
  rw [isStarlark, Bool.or_eq_true] at hlabel ⊢
  exact hlabel.imp (hasSuffix_mainRepoPath (by decide) (by decide) · hpath)
    (hasSuffix_mainRepoPath (by decide) (by decide) · hpath)

/-! ## Sources in partial-graph mode -/

/-- The options of a generation in partial-graph mode at a revision. -/
def HashOptions.atTree (options : HashOptions) (tree : TreeIndex) : HashOptions :=
  { options with partialTree := some tree }

/-- The same, with content hashes for the hasher to look up. -/
def HashOptions.atTreeWith (options : HashOptions) (contents : Option (StringMap String))
    (tree : TreeIndex) : HashOptions :=
  { options with contentHashes := contents, partialTree := some tree }

/-- In partial-graph mode a soft digest is read off the tree. -/
theorem SourceHasher.softDigest_of_tree {hasher : SourceHasher} {tree : TreeIndex}
    (htree : hasher.tree = some tree) (label : String) :
    (hasher.softDigest label : Result (Option D)) = .ok (BazelDiff.softDigest tree label) := by
  rw [SourceHasher.softDigest, htree]
  cases hmain : isMainRepo label with
  | true => rfl
  | false => simp [BazelDiff.softDigest, hmain]; rfl

/-- In partial-graph mode a source digest is read off the tree: without fine-grained
repositories nothing outside the main repository has content. -/
theorem SourceHasher.digestSource_of_tree {hasher : SourceHasher} {tree : TreeIndex}
    (htree : hasher.tree = some tree) (hfine : hasher.fineGrainedExternalRepos = ∅)
    (label : String) (seed : List UInt8) :
    (hasher.digestSource label seed false : Result D) = .ok (sourceDigest tree label seed) := by
  rw [SourceHasher.digestSource, htree]
  dsimp only
  split_ifs with hmain
  · rfl
  · have hpath : mainRepoPath label = none := by
      rw [isMainRepo_iff_mainRepoPath] at hmain
      simpa using hmain
    have hresolve : hasher.resolve label false = .ok none := by
      rw [SourceHasher.resolve, hpath]
      cases externalLabelParts label with
      | none => rfl
      | some parts => simp [isFineGrained, hfine, bind, Except.bind, pure, Except.pure]
    rw [SourceHasher.diskDigest, hresolve, sourceDigest, hpath]
    rfl

omit [HashFunction D] in
theorem sourceHasher_fineGrained {environment : Environment D} {options : HashOptions}
    (hrepos : environment.resolver.scopedSources.repositories.isEmpty = true)
    (hfine : options.bazel.fineGrainedExternalRepos.isEmpty = true) :
    (environment.sourceHasher options).fineGrainedExternalRepos = ∅ := by
  rw [Std.ExtTreeSet.isEmpty_iff] at hrepos hfine
  rw [Environment.sourceHasher, hrepos, hfine]
  rfl

/-- In partial-graph mode every source of a plain query has a digest. -/
theorem digestSources_of_tree {hasher : SourceHasher} {tree : TreeIndex}
    (htree : hasher.tree = some tree) (hfine : hasher.fineGrainedExternalRepos = ∅)
    (sources : List SourceTarget) :
    (digestSources hasher false sources : Result (List (String × D))) =
      .ok (sources.map fun source => (source.name,
        sourceDigest tree source.name (sourceSeed D source.name source.subincludes))) := by
  induction sources with
  | nil => rfl
  | cons source rest ih =>
      rw [digestSources] at ih ⊢
      rw [List.mapM_cons, ih, SourceHasher.digestSource_of_tree htree hfine]
      rfl

/-! ## The seeds of packages -/

theorem mem_packageLabels {sources : List (String × List String)} {package label : String}
    {labels : StringSet} (hlabels : (packageLabels sources)[package]? = some labels)
    (hlabel : label ∈ labels) : ∃ source ∈ sources, label ∈ source.2 := by
  have hfold : ∀ (rest : List (String × List String)) (packages : StringMap StringSet),
      (∀ (package : String) labels, packages[package]? = some labels → ∀ label ∈ labels,
        ∃ source ∈ sources, label ∈ source.2) → (∀ source ∈ rest, source ∈ sources) →
      ∀ (package : String) labels, (rest.foldl (fun packages source =>
        if source.2.isEmpty then packages
        else packages.alter (labelPackage source.1) fun labels =>
          some (source.2.foldl (·.insert ·) (labels.getD ∅))) packages)[package]? = some labels →
        ∀ label ∈ labels, ∃ source ∈ sources, label ∈ source.2 := by
    intro rest
    induction rest with
    | nil => exact fun packages h _ => h
    | cons source rest ih =>
        intro packages h hsub
        refine ih _ (fun package labels hget label hlabel => ?_)
          fun next hnext => hsub next (List.mem_cons_of_mem _ hnext)
        dsimp only at hget
        split_ifs at hget
        · exact h package labels hget label hlabel
        · rw [Std.ExtTreeMap.getElem?_alter] at hget
          split_ifs at hget
          · obtain rfl := Option.some.inj hget
            rw [mem_foldl_insert] at hlabel
            rcases hlabel with hlabel | hlabel
            · cases hold : packages[labelPackage source.1]? with
              | none => simp [hold] at hlabel
              | some old => exact h _ old hold label (by simpa [hold] using hlabel)
            · exact ⟨source, hsub source List.mem_cons_self, hlabel⟩
          · exact h package labels hget label hlabel
  exact hfold sources ∅ (by simp) (fun _ h => h) package labels hlabels label hlabel

/-- The seeds of packages are those of the Starlark files their sources load. -/
theorem packageBzlSeeds_congr {targets : List Target} {h₁ h₂ : SourceHasher}
    (hsoft : ∀ target ∈ targets, ∀ source, target.sourceFile = some source →
      ∀ label ∈ source.subinclude,
        (h₁.softDigest label : Result (Option D)) = h₂.softDigest label) :
    (packageBzlSeeds targets h₁ : Result (StringMap D)) = packageBzlSeeds targets h₂ := by
  rw [packageBzlSeeds, packageBzlSeeds]
  have hstep : ∀ (package : String) labels, (packageLabels ((targets.filterMap (·.sourceFile)).map
      fun source => (source.name, source.subinclude)))[package]? = some labels →
      (softDigests h₁ labels.toList : Result (List (String × Option D))) =
        softDigests h₂ labels.toList := by
    intro package labels hlabels
    refine mapM_congr fun label hlabel => ?_
    obtain ⟨source, hsource, hmem⟩ :=
      mem_packageLabels hlabels (Std.ExtTreeSet.mem_toList.mp hlabel)
    obtain ⟨file, hfile, rfl⟩ := List.mem_map.mp hsource
    obtain ⟨target, htarget, htf⟩ := List.mem_filterMap.mp hfile
    rw [hsoft target htarget file htf label hmem]
  refine Related.eq_of_eq (Related.foldlM (fun package hpackage seeds seeds' heq => ?_) rfl)
  obtain rfl : seeds = seeds' := heq
  rw [hstep package.1 package.2 (Std.ExtTreeMap.mem_toList_iff_getElem?_eq_some.mp hpackage)]
  exact Related.refl (fun _ => rfl) _

/-! ## Derivation against generation -/

/-- What two revisions have in common when neither the query result nor anything a repository
definition reads has changed. -/
structure SameLoading (options : HashOptions) (e₁ e₂ : Environment D) : Prop where
  resolver : e₁.resolver = e₂.resolver
  canonicalWorkspace : e₁.canonicalWorkspace = e₂.canonicalWorkspace
  encode : e₁.encode = e₂.encode
  seedHash : (hashSeedFiles e₁.disk options.bazel.workspace options.seedFilepaths : Result D) =
    hashSeedFiles e₂.disk options.bazel.workspace options.seedFilepaths
  markers : ∀ path, path ∈ markerLoadingInputs e₁.markers ↔ path ∈ markerLoadingInputs e₂.markers

/-- Without an isolated root, a generation that succeeds has no scoped repositories. -/
theorem scopedRepositories_of_ok {options : HashOptions} {targets : List Target}
    {digests : PreparedRules D} {environment : Environment D} {data : HashFileData D}
    (hroot : options.bazel.isolatedDependencyRoot = none)
    (h : hashTargetsWithEnvironment options targets digests environment = .ok data) :
    environment.resolver.scopedSources.repositories.isEmpty = true := by
  by_contra hempty
  obtain ⟨prepared, hprepared, -⟩ := bind_eq_ok h
  rw [prepareTargets] at hprepared
  split_ifs at hprepared
  · cases hprepared
  · obtain ⟨_, -, hprepared⟩ := bind_eq_ok hprepared
    obtain ⟨_, -, hprepared⟩ := bind_eq_ok hprepared
    obtain ⟨_, -, hprepared⟩ := bind_eq_ok hprepared
    obtain ⟨graph, hgraph, -⟩ := bind_eq_ok hprepared
    rw [Graph.foldIsolatedRoot] at hgraph
    dsimp only at hgraph
    rw [if_neg hempty, hroot] at hgraph
    cases hgraph

/-- The second generation runs in lockstep with the first. In partial-graph mode no content is
looked up among the content hashes. -/
theorem full_related {options : HashOptions} (hvalid : validateHashOptions options = .ok ())
    {targets : List Target} (hnames : (names targets).Nodup) {digests : PreparedRules D}
    {e₁ e₂ : Environment D} (hload : SameLoading options e₁ e₂)
    (hstarlark : ∀ target ∈ targets, ∀ source, target.sourceFile = some source →
      ∀ label ∈ source.subinclude, isStarlark label = true)
    {old new : TreeIndex} (hshape : SameShape old new)
    (hrepos : e₁.resolver.scopedSources.repositories.isEmpty = true)
    (contents₁ contents₂ : Option (StringMap String)) :
    Related (FileRel False True)
      (hashTargetsWithEnvironment (options.atTreeWith contents₁ old) targets digests e₁)
      (hashTargetsWithEnvironment (options.atTreeWith contents₂ new) targets digests e₂) := by
  obtain ⟨hcquery, hfine, -, htags⟩ := validateHashOptions_ok hvalid
  have htree₁ : (e₁.sourceHasher (options.atTreeWith contents₁ old)).tree = some old := rfl
  have htree₂ : (e₂.sourceHasher (options.atTreeWith contents₂ new)).tree = some new := rfl
  have hsoft₁ := SourceHasher.softDigest_of_tree (D := D) htree₁
  have hsoft₂ := SourceHasher.softDigest_of_tree (D := D) htree₂
  have hset : SettingRel False True (options.atTreeWith contents₁ old)
      (options.atTreeWith contents₂ new) e₁ e₂ := by
    refine ⟨rfl, rfl, rfl, rfl, Or.inl htags, hload.resolver, fun label => ?_,
      fun _ => hload.markers⟩
    rw [hsoft₁, hsoft₂]
    exact .ok (softDigest_related False.elim (hshape.isSome_softDigest label))
  have hstacks : ∀ rule ∈ targets.filterMap ruleOf, StackRel (options.atTreeWith contents₁ old)
      (options.atTreeWith contents₂ new) e₁ e₂ rule := by
    intro rule _ path hpath
    have hsuffix := mem_stackFiles hpath
    rw [hsoft₁, hsoft₂, hshape.softDigest_eq]
    rw [isStarlark, Bool.or_eq_true, hasSuffix_iff, hasSuffix_iff, String.toList_append]
    rw [Bool.or_eq_true, hasSuffix_iff, hasSuffix_iff] at hsuffix
    refine hsuffix.imp ?_ ?_
    · rintro ⟨front, hfront⟩
      exact ⟨"//".toList ++ front, by rw [hfront, List.append_assoc]⟩
    · rintro ⟨front, hfront⟩
      exact ⟨"//".toList ++ front, by rw [hfront, List.append_assoc]⟩
  have hnode : ∀ rule, nodeOf digests e₁ (options.atTreeWith contents₁ old) rule =
      nodeOf digests e₂ (options.atTreeWith contents₂ new) rule := by
    intro rule
    have hworkspace : e₁.workspace (options.atTreeWith contents₁ old) =
        e₂.workspace (options.atTreeWith contents₂ new) := by
      rw [Environment.workspace, Environment.workspace, hload.canonicalWorkspace]
      rfl
    have hdecoded : decodedNode e₁ (options.atTreeWith contents₁ old) rule =
        decodedNode e₂ (options.atTreeWith contents₂ new) rule := by
      rw [decodedNode, decodedNode, hload.encode, hworkspace]
      rfl
    rw [nodeOf, nodeOf, hdecoded]
  have hrecords : RecordsRel True (options.atTreeWith contents₁ old)
      (options.atTreeWith contents₂ new) e₁ e₂ digests digests targets targets :=
    ⟨hnames, hnames, rfl, rfl, rfl, fun name =>
      Option.Rel.refl_of (fun rule => hnode rule ▸ RawNodeRel.refl _) _⟩
  have hfine₁ : (e₁.sourceHasher (options.atTreeWith contents₁ old)).fineGrainedExternalRepos = ∅ :=
    sourceHasher_fineGrained hrepos hfine
  have hfine₂ : (e₂.sourceHasher (options.atTreeWith contents₂ new)).fineGrainedExternalRepos = ∅ :=
    sourceHasher_fineGrained (hload.resolver ▸ hrepos) hfine
  refine hashTargetsWithEnvironment_related rfl
    (.some ⟨False.elim, fun label => hshape.isSome_softDigest label⟩)
    (prepareTargets_related hset hrecords hstacks rfl hload.seedHash ?_ ?_ (Or.inl hrepos))
  · rw [bzlSeeds, bzlSeeds]
    split_ifs
    · rfl
    · refine packageBzlSeeds_congr fun target htarget source hsource label hlabel => ?_
      have hbzl := hstarlark target htarget source hsource label hlabel
      rw [hsoft₁, hsoft₂, hshape.softDigest_eq hbzl]
  · have huse₁ : (options.atTreeWith contents₁ old).bazel.useCquery = false := hcquery
    have huse₂ : (options.atTreeWith contents₂ new).bazel.useCquery = false := hcquery
    rw [huse₁, huse₂, digestSources_of_tree htree₁ hfine₁, digestSources_of_tree htree₂ hfine₂]
    refine .ok ?_
    rw [SourcesRel, List.forall₂_map_left_iff, List.forall₂_map_right_iff]
    exact List.forall₂_same.mpr fun source _ => ⟨rfl, False.elim⟩

/-- The hashes of an entry generated in partial-graph mode are what its recipes evaluate to. -/
theorem evaluate_of_generated {options : HashOptions} {tree : TreeIndex} {targets : List Target}
    {digests : PreparedRules D} {environment : Environment D} {data : HashFileData D}
    {recipes : PartialRecipes}
    {contents : Option (StringMap String)}
    (h : hashTargetsWithEnvironment (options.atTreeWith contents tree) targets digests environment =
      .ok data) (hrecipes : data.partialGraph = some recipes) :
    evaluate recipes (targetKinds data.hashes) tree = .ok data.hashes ∧ data.tree = tree.id := by
  obtain ⟨prepared, -, h⟩ := bind_eq_ok h
  obtain ⟨⟨state, keyed⟩, -, h⟩ := bind_eq_ok h
  change hashFile (options.atTreeWith contents tree) environment state keyed = .ok data at h
  rw [hashFile] at h
  dsimp only [HashOptions.atTreeWith] at h
  cases hrecorder : state.recorder with
  | none =>
      rw [hrecorder] at h
      cases h
      cases hrecipes
  | some recorder =>
      rw [hrecorder] at h
      obtain ⟨hashes, hhashes, h⟩ := bind_eq_ok h
      cases h
      obtain rfl := Option.some.inj hrecipes
      dsimp only
      rw [targetKinds_evaluate hhashes]
      exact ⟨hhashes, rfl⟩

/-- Re-evaluated at a revision of the same shape, an entry is the one a generation there builds. -/
theorem derive_of_sameShape {options : HashOptions}
    (hvalid : validateHashOptions options = .ok ()) {targets : List Target}
    (hnames : (names targets).Nodup) {digests : PreparedRules D} {e₁ e₂ : Environment D}
    (hload : SameLoading options e₁ e₂)
    (hstarlark : ∀ target ∈ targets, ∀ source, target.sourceFile = some source →
      ∀ label ∈ source.subinclude, isStarlark label = true)
    {old new : TreeIndex} (hshape : SameShape old new)
    (contents₁ contents₂ : Option (StringMap String)) {first : HashFileData D}
    (hfirst : hashTargetsWithEnvironment (options.atTreeWith contents₁ old) targets digests e₁ =
      .ok first) {recipes : PartialRecipes} (hrecipes : first.partialGraph = some recipes) :
    ∃ full, hashTargetsWithEnvironment (options.atTreeWith contents₂ new) targets digests e₂ =
        .ok full ∧ full.partialGraph = some recipes ∧ full.tree = new.id ∧
      full.depEdges = first.depEdges ∧
      ∀ base : HashFileData D, base.hashes = first.hashes → base.partialGraph = some recipes →
        derive base new = .ok { base with hashes := full.hashes, tree := new.id } := by
  obtain ⟨-, -, hroot, -⟩ := validateHashOptions_ok hvalid
  have hroot' : (options.atTreeWith contents₁ old).bazel.isolatedDependencyRoot = none := hroot
  obtain ⟨full, hfull, hrel⟩ := (full_related hvalid hnames hload hstarlark hshape
    (scopedRepositories_of_ok hroot' hfirst) contents₁ contents₂).ok_left hfirst
  have hsame : full.partialGraph = some recipes := by
    rcases hrel.recipes.dest with ⟨h₁, -⟩ | ⟨r₁, r₂, h₁, h₂, hr⟩
    · rw [hrecipes] at h₁
      cases h₁
    · rw [hrecipes] at h₁
      obtain rfl := Option.some.inj h₁
      rw [h₂, PartialRecipes.eq_of_withoutLoading hr.1 (hr.2 trivial)]
  obtain ⟨hevaluate, htree⟩ := evaluate_of_generated hfull hsame
  refine ⟨full, hfull, hsame, htree, hrel.depEdges.symm, fun base hhashes hbase => ?_⟩
  rw [derive, hbase, hhashes, targetKinds_related hrel.hashes]
  simp only [okOr, bind, Except.bind, hevaluate]
  rfl

/-- Derivation equals full generation: if the classifier calls a revision derivable from an
entry generated at another one, the derived entry is the one a generation would build. -/
theorem derive_eq_full {options : HashOptions} (hvalid : validateHashOptions options = .ok ())
    {targets : List Target} (hnames : (names targets).Nodup) {digests : PreparedRules D}
    {e₁ e₂ : Environment D} (hload : SameLoading options e₁ e₂)
    (hstarlark : ∀ target ∈ targets, ∀ source, target.sourceFile = some source →
      ∀ label ∈ source.subinclude, isStarlark label = true)
    {old : TreeIndex} {base : HashFileData D}
    (hbase : hashTargetsWithEnvironment (options.atTree old) targets digests e₁ = .ok base)
    {inputs : ClassifyInputs D} (hinputs : inputs.base = base)
    (hdiff : IsRawDiff inputs.diff old inputs.tree) {changed unmatched : List String}
    (hclass : classify inputs = .derivable changed unmatched) :
    ∃ full derived,
      hashTargetsWithEnvironment (options.atTree inputs.tree) targets digests e₂ = .ok full ∧
      derive base inputs.tree = .ok derived ∧ derived.hashes = full.hashes ∧
      derived.depEdges = full.depEdges ∧ derived.partialGraph = full.partialGraph ∧
      derived.tree = full.tree := by
  obtain ⟨recipes, hrecipes, -⟩ := classify_derivable hclass
  rw [hinputs] at hrecipes
  obtain ⟨full, hfull, hsame, htree, hedges, hderive⟩ := derive_of_sameShape hvalid hnames hload
    hstarlark (sameShape_of_derivable hclass hdiff) options.contentHashes options.contentHashes
    hbase hrecipes
  exact ⟨full, _, hfull, hderive base rfl hrecipes, rfl, hedges.symm, hrecipes.trans hsame.symm,
    htree.symm⟩

/-- Two rules that depend on each other, and the source one of them reads. -/
def cyclicTargets : List Target :=
  [{ type := .rule
     rule := some { name := "//p:r", ruleClass := "genrule", ruleInput := ["//p:a", "//p:s"] } },
   { type := .rule
     rule := some { name := "//p:s", ruleClass := "genrule", ruleInput := ["//p:r"] } },
   { type := .sourceFile, sourceFile := some { name := "//p:a", subinclude := ["//p:d.bzl"] } }]

/-- A tree that tracks the source, with the given content. -/
def oneFileTree (object : String) : TreeIndex where
  entries := (∅ : StringMap TreeEntry).insert "p/a" ⟨object, .file false⟩
  id := some object

/-- The source was rewritten. -/
def oneFileDiff : List DiffEntry :=
  [⟨"p/a", 'M', "100644", "100644"⟩]

/-- The question whether the revision `2` is derivable from an entry. -/
def oneFileChanged (base : HashFileData Preimage) : ClassifyInputs Preimage where
  diff := oneFileDiff
  tree := oneFileTree "2"
  base := base
  workspace := { path := "" }
  seedFilepaths := []
  rebuildPatterns := []
  moduleReferenced := ∅

theorem isRawDiff_oneFileDiff : IsRawDiff oneFileDiff (oneFileTree "1") (oneFileTree "2") := by
  refine ⟨fun path hne => ?_, by decide, by decide⟩
  by_cases hpath : "p/a" = path
  · exact ⟨_, List.mem_singleton.mpr rfl, hpath⟩
  · refine absurd ?_ hne
    simp [TreeIndex.get, oneFileTree, hpath]

theorem derive_eq_full_cyclic : ∃ base full derived : HashFileData Preimage,
    hashTargetsWithEnvironment (HashOptions.atTree {} (oneFileTree "1")) cyclicTargets
      SlotTable.empty .bare = .ok base ∧
    hashTargetsWithEnvironment (HashOptions.atTree {} (oneFileTree "2")) cyclicTargets
      SlotTable.empty .bare = .ok full ∧
    derive base (oneFileTree "2") = .ok derived ∧ derived.hashes = full.hashes ∧
    derived.depEdges = full.depEdges ∧ derived.partialGraph = full.partialGraph ∧
    derived.tree = full.tree := by
  have hclassified : (do
      let base ← hashTargetsWithEnvironment (HashOptions.atTree {} (oneFileTree "1")) cyclicTargets
        SlotTable.empty .bare
      return classify (oneFileChanged base)) =
      (.ok (.derivable ["//p:a"] []) : Result Classification) := by
    decide +kernel
  obtain ⟨base, hbase, hclass⟩ := bind_eq_ok hclassified
  have hvalid : validateHashOptions {} = .ok () := rfl
  have hload : SameLoading {} Environment.bare .bare := ⟨rfl, rfl, rfl, rfl, fun _ => Iff.rfl⟩
  obtain ⟨full, derived, hfull, hderived, hsame⟩ := derive_eq_full hvalid (by decide) hload
    (by decide) hbase rfl isRawDiff_oneFileDiff (Except.ok.inj hclass)
  exact ⟨base, full, derived, hbase, hfull, hderived, hsame⟩

end BazelDiff
