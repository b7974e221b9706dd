/-
# Prepared inputs

Under a plain query, when the repository mapping is at hand, the inputs of every rule
are rewritten and looked up once, before generated files have their aliases and before
any file has been promoted to a source. A run without that step rewrites the inputs of
a rule when it reaches the rule and looks each one up by name. The two runs end in the
same hash file.
-/

import BazelDiff.Hash.Prepare

namespace BazelDiff

open Text HashFunction Outcome

/-! ## The inputs -/

/-- Labels of the main repository are not rewritten. -/
theorem syntheticInput_of_isMainRepo {input : String} (h : isMainRepo input = true)
    (fine : StringSet) (nodes : StringMap String) : syntheticInput input fine nodes = none := by
  simp [syntheticInput, externalInputRepo, h]

theorem isMainRepo_of_external {input : String} (h : hasPrefix "//external:" input = true) :
    isMainRepo input = true := by
  obtain ⟨rest, hrest⟩ := (hasPrefix_iff _ _).mp h
  have hmain : hasPrefix "//" input = true :=
    (hasPrefix_iff _ _).mpr ⟨"external:".toList ++ rest, by rw [hrest]; rfl⟩
  simp [isMainRepo, hmain]

/-- A rewritten input is a node of an external repository. -/
theorem hasPrefix_of_syntheticInput {input synthetic : String} {fine : StringSet}
    {nodes : StringMap String} (h : syntheticInput input fine nodes = some synthetic) :
    hasPrefix "//external:" synthetic = true := by
  obtain ⟨⟨name, node⟩, -, h⟩ := Option.bind_eq_some_iff.mp h
  dsimp only at h
  split_ifs at h
  · cases h
  obtain rfl : "//external:" ++ node = synthetic := Option.some.inj h
  exact (hasPrefix_iff _ _).mpr ⟨node.toList, by rw [String.toList_append]⟩

/-- One input contributes the same node either way. -/
theorem transformed_eq_toList (input : String) (fine : StringSet) (nodes : StringMap String) :
    ((([input].filter fun input => !hasPrefix "//external:" input).map
      fun input => transformExternalInput input fine nodes).filter (hasPrefix "//external:")) =
      (syntheticInput input fine nodes).toList := by
  cases hexternal : hasPrefix "//external:" input with
  | true =>
      rw [syntheticInput_of_isMainRepo (isMainRepo_of_external hexternal)]
      simp [hexternal]
  | false =>
      cases hsynthetic : syntheticInput input fine nodes with
      | none => simp [hexternal, transformExternalInput, hsynthetic]
      | some synthetic =>
          simp [hexternal, transformExternalInput, hsynthetic,
            hasPrefix_of_syntheticInput hsynthetic]

/-- Inputs rewritten ahead are the inputs a rule derives on demand. -/
theorem preparedInputs_eq_ruleInputs (rule : Rule) (fine : StringSet)
    (nodes : StringMap String) :
    preparedInputs rule.ruleInput fine nodes = ruleInputs rule false fine nodes := by
  have hsynthetic : ∀ inputs : List String,
      inputs.filterMap (fun input => syntheticInput input fine nodes) =
        (((inputs.filter fun input => !hasPrefix "//external:" input).map
          fun input => transformExternalInput input fine nodes).filter
            (hasPrefix "//external:")) := by
    intro inputs
    induction inputs with
    | nil => rfl
    | cons input rest ih =>
        have hone : [input].filterMap (fun input => syntheticInput input fine nodes) =
            (syntheticInput input fine nodes).toList := by
          cases hinput : syntheticInput input fine nodes <;> simp [hinput]
        rw [← List.singleton_append, List.filterMap_append, List.filter_append, List.map_append,
          List.filter_append, ih, transformed_eq_toList, hone]
  rw [preparedInputs, ruleInputs, hsynthetic]
  simp

variable {D : Type} [HashFunction D]

/-! ## Runs with and without the step -/

/-- `prepareGraph`, told whether to prepare the inputs of a plain query. -/
def prepareGraphWhen (ready : Bool) (options : HashOptions) (environment : Environment D)
    (seedHash : D) (packageSeeds : StringMap D) (intake : Intake D) (graph : Graph D) :
    Result (Prepared D) := do
  let graph ← graph.foldIsolatedRoot environment options
  let graph := graph.prepare environment options ready
  let aliasing ← aliasTargets graph.rules intake.recorder intake.hashTargets
  return {
    context := runContext options environment seedHash packageSeeds graph.nodes
    state :=
      { rules := aliasing.rules
        labelInstances := aliasing.labelInstances
        recorder := aliasing.recorder.map
          (recordLoading aliasing.rules graph.nodes environment.markers) }
    targets := sortedTargets intake.hashTargets }

/-- `prepareTargets`, told whether to prepare the inputs of a plain query. -/
def prepareTargetsWhen (ready : Bool) (options : HashOptions) (targets : List Target)
    (definitionDigests : PreparedRules D) (environment : Environment D) :
    Result (Prepared D) := do
  if options.partialTree.isSome ∧ options.bazel.useCquery then
    bail "partial graph mode does not support --useCquery"
  let seedHash : D ← hashSeedFiles environment.disk options.bazel.workspace options.seedFilepaths
  let packageSeeds ← bzlSeeds options targets environment
  let intake := takeIn targets definitionDigests (newRecorder options targets seedHash)
  let sources ← digestSources (environment.sourceHasher options) options.bazel.useCquery
    intake.sourceTargets
  prepareGraphWhen ready options environment seedHash packageSeeds intake
    (intake.graph environment options sources)

/-- `hashTargetsWithEnvironment`, told whether to prepare the inputs of a plain query. -/
def hashTargetsWhen (ready : Bool) (options : HashOptions) (targets : List Target)
    (definitionDigests : PreparedRules D) (environment : Environment D) :
    Result (HashFileData D) := do
  let prepared ← prepareTargetsWhen ready options targets definitionDigests environment
  let (state, digests) ← prepared.run
  hashFile options environment state digests

/-- A run prepares the inputs when the repository mapping is at hand. -/
theorem hashTargetsWithEnvironment_eq_when (options : HashOptions) (targets : List Target)
    (digests : PreparedRules D) (environment : Environment D) :
    hashTargetsWithEnvironment options targets digests environment =
      hashTargetsWhen (mappingReady environment options (sourceTargets targets)) options targets
        digests environment := by
  have htaken : ∀ recorder, (takeIn targets digests recorder).sourceTargets =
      sourceTargets targets := by
    intro recorder
    rw [takeIn, Intake.sourceTargets_foldl, List.nil_append]
  rw [hashTargetsWithEnvironment, hashTargetsWhen, prepareTargets, prepareTargetsWhen]
  simp only [htaken, prepareGraph]
  rfl

/-! ## A prepared node and the node it was made from -/

/-- Only the inputs of a prepared node were touched, and it leads to the same ones. -/
theorem nodeRel_prepared {options : HashOptions} (hquery : options.bazel.useCquery = false)
    (environment : Environment D) (seedHash : D) (packageSeeds : StringMap D)
    (nodes₁ nodes₂ : StringMap (RuleNode D)) {node : RuleNode D}
    (hnode : node.inputPositions = none) {inputs : List String}
    (hinputs : inputs = preparedInputs node.rule.ruleInput options.bazel.fineGrainedExternalRepos
      (inputRepoNodes node.rule.ruleInput options.bazel.fineGrainedExternalRepos
        environment.resolver.canonicalRepoNodes)) (positions : List (Option Nat)) :
    NodeRel (runContext options environment seedHash packageSeeds nodes₁)
      (runContext options environment seedHash packageSeeds nodes₂)
      { node with
        rule := { node.rule with ruleInput := inputs }, inputPositions := some positions } node where
  name := rfl
  ruleClass := rfl
  definition := rfl
  shared := rfl
  stack := rfl
  affected := rfl
  seed _ := rfl
  extension := rfl
  inputs := by
    rw [HashContext.inputsOf, HashContext.inputsOf, hnode, hinputs, preparedInputs_eq_ruleInputs,
      runContext, runContext]
    dsimp only [Environment.sourceHasher]
    rw [hquery]
    rfl
  visibility := rfl
  bzl _ _ := rfl

omit [HashFunction D] in
/-- Nodes with the same loading inputs are recorded alike. -/
theorem recordLoading_map (rules : Labels D) (nodes : StringMap (RuleNode D))
    {f : String → RuleNode D → RuleNode D}
    (hf : ∀ name node, (f name node).prepared.loadingInputs = node.prepared.loadingInputs)
    (markers : List String) :
    recordLoading rules (nodes.map f) markers = recordLoading rules nodes markers := by
  funext recorder
  rw [recordLoading, recordLoading]
  congr 1
  generalize rules.ruleKeys = keys
  induction keys generalizing recorder with
  | nil => rfl
  | cons key rest ih =>
      rw [List.filterMap_cons, List.filterMap_cons]
      cases hrule : (rules.find key).rule with
      | none => exact ih recorder
      | some name =>
          rw [Option.bind_some, Option.bind_some, Std.ExtTreeMap.getElem?_map]
          cases hnode : nodes[name]? with
          | none => exact ih recorder
          | some node =>
              simp only [Option.map_some, List.foldl_cons, hf]
              exact ih _

omit [HashFunction D] in
/-- Loading inputs do not depend on the inputs of the rules. -/
theorem recordLoading_prepareInputs (rules : Labels D) (graph : Graph D) (fine : StringSet)
    (repoNodes : StringMap String) (markers : List String) :
    recordLoading rules (graph.prepareInputs fine repoNodes).nodes markers =
      recordLoading rules graph.nodes markers := by
  rw [Graph.prepareInputs]
  apply recordLoading_map
  exact fun _ _ => rfl

omit [HashFunction D] in
theorem prepare_false (graph : Graph D) (environment : Environment D) (options : HashOptions) :
    graph.prepare environment options false = graph := by
  rw [Graph.prepare, Bool.and_false]
  rfl

omit [HashFunction D] in
theorem recordLoading_prepare (rules : Labels D) (graph : Graph D) (environment : Environment D)
    (options : HashOptions) (ready : Bool) (markers : List String) :
    recordLoading rules (graph.prepare environment options ready).nodes markers =
      recordLoading rules graph.nodes markers := by
  rw [Graph.prepare]
  split_ifs
  · exact recordLoading_prepareInputs rules graph _ _ markers
  · rfl

/-- The nodes of a graph before and after the step contribute the same. -/
theorem contextRel_prepare {options : HashOptions} {environment : Environment D}
    {graph : Graph D} (hgraph : graph.Unprepared) (seedHash : D) (packageSeeds : StringMap D)
    (ready : Bool) :
    ContextRel True
      (runContext options environment seedHash packageSeeds
        (graph.prepare environment options ready).nodes)
      (runContext options environment seedHash packageSeeds graph.nodes) where
  trackDeps := rfl
  seedHash := rfl
  packageBzlSeeds := rfl
  soft label := Related.refl (fun _ => Option.Rel.refl_of (fun _ => AgreeIf.refl _) _) _
  nodes name := by
    rw [Graph.prepare]
    split_ifs with hready
    · have hquery : options.bazel.useCquery = false := by
        cases hquery : options.bazel.useCquery with
        | false => rfl
        | true => simp [hquery] at hready
      dsimp only [runContext, Graph.prepareInputs]
      rw [Std.ExtTreeMap.getElem?_map]
      cases hnode : graph.nodes[name]? with
      | none => exact .none
      | some node =>
          exact .some (nodeRel_prepared hquery environment seedHash packageSeeds _ _
            (hgraph hnode) rfl _)
    · refine Option.Rel.refl_of (fun node => ?_) _
      exact ⟨rfl, rfl, rfl, rfl, rfl, rfl, fun _ => rfl, rfl, rfl, rfl, fun _ _ => rfl⟩

/-- A traversal that starts from prepared inputs and one that starts without them begin in
lockstep. -/
theorem prepareGraphWhen_related (options : HashOptions) (environment : Environment D)
    (seedHash : D) (packageSeeds : StringMap D) (intake : Intake D) {graph : Graph D}
    (hgraph : graph.Unprepared) (ready : Bool) :
    Related (PreparedRel True True)
      (prepareGraphWhen ready options environment seedHash packageSeeds intake graph)
      (prepareGraphWhen false options environment seedHash packageSeeds intake graph) := by
  rw [prepareGraphWhen, prepareGraphWhen]
  cases hfold : graph.foldIsolatedRoot environment options with
  | error failure => exact .error _
  | ok folded =>
      have hunprepared := (foldIsolatedRoot_ok hfold).2 hgraph
      have hids := aliasTargets_ids folded.rules intake.recorder intake.hashTargets
      simp only [ok_bind, prepare_false, prepare_rules, recordLoading_prepare]
      cases halias : aliasTargets folded.rules intake.recorder intake.hashTargets with
      | error failure => exact .error _
      | ok aliasing =>
          refine .ok ⟨contextRel_prepare hunprepared seedHash packageSeeds ready, ?_, rfl⟩
          refine ⟨fun key => ⟨rfl, rfl, Option.Rel.refl_of (fun _ => AgreeIf.refl _) _⟩,
            Pointwise.empty, rfl, Pointwise.empty, rfl,
            Option.Rel.refl_of RecorderRel.refl _, ?_, ?_⟩
          · refine positionsOk_runContext
              (positionsOk_prepare hunprepared environment options ready) ?_ options environment
              seedHash packageSeeds
            rw [prepare_rules]
            exact hids aliasing halias
          · exact positionsOk_runContext hunprepared.positionsOk (hids aliasing halias) options
              environment seedHash packageSeeds

/-! ## The hash files -/

/-- Runs whose records are the same finish with the same file. -/
theorem hashFile_eq (options : HashOptions) (environment : Environment D) {s₁ s₂ : HashState D}
    (h : Option.Rel (RecorderRel True) s₁.recorder s₂.recorder) (digests : List (KeyedDigest D)) :
    hashFile options environment s₁ digests = hashFile options environment s₂ digests := by
  rw [hashFile, hashFile]
  rcases h.dest with ⟨h₁, h₂⟩ | ⟨r₁, r₂, h₁, h₂, hr⟩
  · rw [h₁, h₂]
  · have hfinish : r₁.finish = r₂.finish :=
      PartialRecipes.eq_of_withoutLoading hr.finish.1 (hr.finish.2 trivial)
    rw [h₁, h₂]
    cases options.partialTree with
    | none => rfl
    | some tree =>
        dsimp only
        rw [hfinish]

/-- Whether the inputs are prepared makes no difference to the hash file. -/
theorem hashTargetsWhen_eq_onDemand (ready : Bool) (options : HashOptions)
    (targets : List Target) (digests : PreparedRules D) (environment : Environment D) :
    hashTargetsWhen ready options targets digests environment =
      hashTargetsWhen false options targets digests environment := by
  have hprepared : Related (PreparedRel True True)
      (prepareTargetsWhen ready options targets digests environment)
      (prepareTargetsWhen false options targets digests environment) := by
    rw [prepareTargetsWhen, prepareTargetsWhen]
    split_ifs
    · exact .error _
    · refine Related.bind (Related.refl (fun _ => rfl) _) fun seedHash seedHash' heq => ?_
      obtain rfl : seedHash = seedHash' := heq
      refine Related.bind (Related.refl (fun _ => rfl) _) fun seeds seeds' heq => ?_
      obtain rfl : seeds = seeds' := heq
      refine Related.bind (Related.refl (fun _ => rfl) _) fun sources sources' heq => ?_
      obtain rfl : sources = sources' := heq
      exact prepareGraphWhen_related options environment seedHash seeds _
        (unprepared_takeIn targets digests _ environment options sources) ready
  have hfiles : Related (fun f₁ f₂ : HashFileData D => f₁ = f₂)
      (hashTargetsWhen ready options targets digests environment)
      (hashTargetsWhen false options targets digests environment) := by
    refine Related.bind hprepared fun p₁ p₂ hp => ?_
    refine Related.bind (run_related hp) ?_
    rintro ⟨s₁, ds₁⟩ ⟨s₂, ds₂⟩ ⟨hs, hds⟩
    obtain rfl : ds₁ = ds₂ := forall₂_keyedRel_eq trivial hds
    dsimp only at hs ⊢
    rw [hashFile_eq options environment hs.recorder]
    exact Related.refl (fun _ => rfl) _
  exact hfiles.eq_of_eq

/-- Preparing the inputs of a plain query changes nothing: the hash file, with its hashes,
edges and recipes, is the one of a run that rewrites inputs on demand and looks every one of
them up by name. So is the file of a run that decides for itself. -/
theorem hashTargets_prepared_eq_onDemand (options : HashOptions) (targets : List Target)
    (digests : PreparedRules D) (environment : Environment D) :
    hashTargetsWhen true options targets digests environment =
        hashTargetsWhen false options targets digests environment ∧
      hashTargetsWithEnvironment options targets digests environment =
        hashTargetsWhen false options targets digests environment := by
  refine ⟨hashTargetsWhen_eq_onDemand true options targets digests environment, ?_⟩
  rw [hashTargetsWithEnvironment_eq_when]
  exact hashTargetsWhen_eq_onDemand _ options targets digests environment

end BazelDiff
