/-
# What a hash remembers of the seed files

In partial-graph mode the digest of the seed files goes into the static part of every recipe,
and is kept beside the recipes for the source targets. With an injective digest function every
direct hash of an entry tells which seed files the entry was generated with.
-/

import BazelDiff.Hash.DirectHash

namespace BazelDiff

open Text HashFunction Outcome

variable {D : Type} [HashFunction D]

/-- A direct hash that the digest of the seed files went into: right behind a source's content,
or in the static part of a rule's recipe. -/
def SeededBy (seedHash : D) (kind : String) (direct : D) : Prop :=
  if kind = "SourceFile" then ∃ content, StartsFromBoth content seedHash direct
  else ∃ fixed definition, StartsFrom fixed direct ∧ StartsFromBoth definition seedHash fixed

/-- A direct hash was made with one digest of the seed files only. -/
theorem SeededBy.inj (hinj : Function.Injective (digest : List UInt8 → D))
    {seedHash seedHash' direct : D} {kind : String} (h : SeededBy seedHash kind direct)
    (h' : SeededBy seedHash' kind direct) : seedHash = seedHash' := by
  rw [SeededBy] at h h'
  split_ifs at h h' with hkind
  · obtain ⟨content, hcontent⟩ := h
    obtain ⟨content', hcontent'⟩ := h'
    exact hcontent.inj hinj hcontent'
  · obtain ⟨fixed, definition, hfixed, hdefinition⟩ := h
    obtain ⟨fixed', definition', hfixed', hdefinition'⟩ := h'
    rw [hfixed.inj hinj hfixed'] at hdefinition
    exact hdefinition.inj hinj hdefinition'

/-- The digest of a source target has the seed files right behind the content. -/
theorem sourceTargetDigest_startsFromBoth (content seedHash : D) (packageSeed : Option D) :
    StartsFromBoth content seedHash (sourceTargetDigest (some content) seedHash packageSeed) :=
  ⟨(packageSeed.map bytes).getD [], by
    rw [sourceTargetDigest, Option.map_some, Option.getD_some, List.append_assoc]⟩

section Run

variable {options : HashOptions} {targets : List Target} {digests : PreparedRules D}
  {environment : Environment D}

/-- What a generation in partial-graph mode goes through: a traversal that records recipes, and
an evaluation of them. -/
theorem partialGeneration_ok (hnodup : (names targets).Nodup) {tree : TreeIndex}
    (htree : options.partialTree = some tree) {seedHash : D}
    (hseed : hashSeedFiles environment.disk options.bazel.workspace options.seedFilepaths =
      .ok seedHash) {data : HashFileData D}
    (h : hashTargetsWithEnvironment options targets digests environment = .ok data) :
    ∃ (nodes : StringMap (RuleNode D)) (cells : StringMap (TargetDigest D))
      (recorder : RecipeRecorder) (keyed : List (KeyedDigest D)),
      FromDefinitions nodes seedHash true cells (some recorder) ∧
      keyed.length = (targets.filterMap hashTargetOf).length ∧
      evaluate recorder.finish (targetKinds (aggregateByLabel keyed options.trackDeps).hashes)
        tree = .ok data.hashes ∧
      data.partialGraph = some recorder.finish ∧ data.tree = tree.id := by
  obtain ⟨prepared, hprepared, h⟩ := bind_eq_ok h
  obtain ⟨⟨state, keyed⟩, hrun, h⟩ := bind_eq_ok h
  change hashFile options environment state keyed = .ok data at h
  obtain ⟨hinv, hkeyed⟩ := run_fromDefinitions hnodup hprepared hrun
  have hcontext : prepared.context.seedHash = seedHash := by
    obtain ⟨seedHash', seeds, sources, graph, aliasing, hseed', -, -, -, -, hcontext, -⟩ :=
      prepareTargets_ok hprepared
    rw [hcontext]
    exact Except.ok.inj (hseed'.symm.trans hseed)
  have hrecording := hinv.recording
  rw [htree, Option.isSome_some] at hrecording
  obtain ⟨recorder, hrecorder⟩ := Option.isSome_iff_exists.mp hrecording
  rw [hcontext, htree, Option.isSome_some, hrecorder] at hinv
  rw [hashFile, htree, hrecorder] at h
  obtain ⟨hashes, hhashes, h⟩ := bind_eq_ok h
  cases h
  refine ⟨_, _, recorder, keyed, hinv, ?_, hhashes, rfl, rfl⟩
  rw [hkeyed.length_eq]
  exact (List.perm_insertionSort _ _).length_eq

/-- A generation in partial-graph mode keeps the digest of the seed files with its recipes. -/
theorem generated_seedHash (hnodup : (names targets).Nodup) {tree : TreeIndex}
    (htree : options.partialTree = some tree) {seedHash : D}
    (hseed : hashSeedFiles environment.disk options.bazel.workspace options.seedFilepaths =
      .ok seedHash) {data : HashFileData D}
    (h : hashTargetsWithEnvironment options targets digests environment = .ok data) :
    ∃ recipes, data.partialGraph = some recipes ∧ recipes.seedHash = hexDigest seedHash ∧
      data.tree = tree.id := by
  obtain ⟨nodes, cells, recorder, keyed, hinv, -, -, hrecipes, hid⟩ :=
    partialGeneration_ok hnodup htree hseed h
  exact ⟨_, hrecipes, recorder.finish_rest.2.1.trans (hinv.seeded recorder rfl), hid⟩

/-- Every hash of a generation in partial-graph mode was made with the digest of the seed files
on the disk. -/
theorem generated_seededBy (hnodup : (names targets).Nodup) {tree : TreeIndex}
    (htree : options.partialTree = some tree) {seedHash : D}
    (hseed : hashSeedFiles environment.disk options.bazel.workspace options.seedFilepaths =
      .ok seedHash) {data : HashFileData D}
    (h : hashTargetsWithEnvironment options targets digests environment = .ok data)
    {label : String} {hash : TargetHash D} (hlabel : data.hashes[label]? = some hash) :
    ∃ direct, hash.directHash = .sha256 direct ∧ SeededBy seedHash hash.kind direct := by
  obtain ⟨nodes, cells, recorder, keyed, hinv, -, hhashes, -, -⟩ :=
    partialGeneration_ok hnodup htree hseed h
  have hkind : (targetKinds (aggregateByLabel keyed options.trackDeps).hashes)[label]? =
      some hash.kind := by
    rw [← targetKinds_evaluate hhashes, targetKinds, Std.ExtTreeMap.getElem?_map, hlabel]
    rfl
  obtain ⟨evaluation, hevaluation, hmade⟩ := evaluate_madeFrom hhashes
  obtain ⟨overall, direct, hhash, hfrom⟩ := hmade label hash.kind hkind
  obtain ⟨hrecipes, -, hdecode, hsources⟩ := prepareEvaluation_ok hevaluation
  have hevaluated : evaluation.seedHash = seedHash := by
    rw [recorder.finish_rest.2.1, hinv.seeded recorder rfl, decodeDigest_hexDigest] at hdecode
    exact (Except.ok.inj hdecode).symm
  refine ⟨direct, by rw [Option.some.inj (hlabel.symm.trans hhash)], ?_⟩
  rw [SeededBy]
  split_ifs with hsource
  · have hmem : label ∈ sourceLabels
        (targetKinds (aggregateByLabel keyed options.trackDeps).hashes) := by
      rw [sourceLabels]
      refine List.mem_map.mpr ⟨(label, hash.kind), List.mem_filter.mpr ⟨?_, by simp [hsource]⟩, rfl⟩
      exact Std.ExtTreeMap.mem_toList_iff_getElem?_eq_some.mpr hkind
    obtain ⟨content, hcontent⟩ : ∃ content, evaluation.sourceDigests[label]? = some content :=
      Option.isSome_iff_exists.mp (Std.ExtTreeMap.mem_iff_isSome_getElem?.mp (hsources label hmem))
    refine ⟨content, ?_⟩
    rw [hfrom.source hsource, hcontent, hevaluated]
    exact sourceTargetDigest_startsFromBoth content seedHash _
  · obtain ⟨key, -, recipe, fixed, hrecipe, hfixed, hdirect⟩ := hfrom.rule hsource
    rw [hrecipes, RecipeRecorder.finish_rules] at hrecipe
    obtain ⟨node, fixed', -, hhex, hdefinition⟩ := hinv.recipe recorder rfl key recipe hrecipe
    rw [RuleRecipe.staticDigest, hhex, decodeDigest_hexDigest] at hfixed
    obtain rfl := Except.ok.inj hfixed
    exact ⟨fixed', _, hdirect, hdefinition⟩

/-- A generation without hashes had no target to hash. -/
theorem targets_of_no_hashes (hnodup : (names targets).Nodup) {tree : TreeIndex}
    (htree : options.partialTree = some tree) {seedHash : D}
    (hseed : hashSeedFiles environment.disk options.bazel.workspace options.seedFilepaths =
      .ok seedHash) {data : HashFileData D}
    (h : hashTargetsWithEnvironment options targets digests environment = .ok data)
    (hnone : data.hashes = ∅) : targets.filterMap hashTargetOf = [] := by
  obtain ⟨nodes, cells, recorder, keyed, -, hlength, hhashes, -, -⟩ :=
    partialGeneration_ok hnodup htree hseed h
  rw [← List.length_eq_zero_iff, ← hlength, List.length_eq_zero_iff,
    List.eq_nil_iff_forall_not_mem]
  intro own hown
  have hkinds := targetKinds_evaluate hhashes
  rw [hnone] at hkinds
  have hempty : (targetKinds (aggregateByLabel keyed options.trackDeps).hashes)[own.label]? =
      none := by
    rw [← hkinds, targetKinds, Std.ExtTreeMap.getElem?_map]
    simp
  rw [targetKinds, Std.ExtTreeMap.getElem?_map, Option.map_eq_none_iff,
    hashes_aggregateByLabel] at hempty
  have hfound : own ∈ instancesOf keyed own.label :=
    List.mem_filter.mpr ⟨(List.mem_insertionSort _).mpr hown, by simp⟩
  cases hinstances : instancesOf keyed own.label with
  | nil =>
      rw [hinstances] at hfound
      exact absurd hfound List.not_mem_nil
  | cons first rest =>
      rw [hinstances, hashOfInstances] at hempty
      cases hempty

end Run

end BazelDiff
