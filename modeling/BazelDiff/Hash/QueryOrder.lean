/-
# The order of the query result

Bazel lists the targets of a query in no particular order. Everything the pipeline
threads through its loops depends on that order on the way: positions in the table, the
index of configured keys, the alias that replaces an entry. What it ends with does not.
-/

import BazelDiff.Hash.Prepare

namespace BazelDiff

open Text HashFunction Outcome

variable {D : Type}

/-! ## Loops that forget their order -/

theorem packageLabels_perm {sources sources' : List (String × List String)}
    (h : sources.Perm sources') : packageLabels sources = packageLabels sources' := by
  refine h.foldl_eq' (fun first _ second _ packages => ?_) ∅
  split_ifs
  · rfl
  · rfl
  · rfl
  · refine (Pointwise.alter_comm (fun _ => rfl) (fun labels => .some ?_) _ _ _).eq
    refine Std.ExtTreeSet.ext_mem fun label => ?_
    simp only [Option.getD_some, mem_foldl_insert]
    tauto

theorem hasInstantiationStacks_perm {targets targets' : List Target}
    (h : targets.Perm targets') :
    hasInstantiationStacks targets = hasInstantiationStacks targets' := by
  rw [hasInstantiationStacks, hasInstantiationStacks, Bool.eq_iff_iff, List.any_eq_true,
    List.any_eq_true]
  simp only [h.mem_iff]

theorem bzlSeeds_perm [HashFunction D] {targets targets' : List Target}
    (h : targets.Perm targets') (options : HashOptions) (environment : Environment D) :
    bzlSeeds options targets environment = bzlSeeds options targets' environment := by
  rw [bzlSeeds, bzlSeeds, hasInstantiationStacks_perm h, packageBzlSeeds, packageBzlSeeds,
    packageLabels_perm ((h.filterMap _).map _)]

theorem mappingReady_perm {sources sources' : List SourceTarget} (h : sources.Perm sources')
    (environment : Environment D) (options : HashOptions) :
    mappingReady environment options sources = mappingReady environment options sources' := by
  rw [mappingReady, mappingReady]
  congr 1
  rw [Bool.eq_iff_iff, List.any_eq_true, List.any_eq_true]
  simp only [h.mem_iff]

theorem sortedTargets_perm {targets targets' : List HashTarget} (h : targets.Perm targets')
    (hnodup : (targets.map (·.label)).Nodup) : sortedTargets targets = sortedTargets targets' := by
  have : Std.Total fun left right : HashTarget => left.label ≤ right.label :=
    ⟨fun left right => le_total left.label right.label⟩
  have : IsTrans HashTarget fun left right => left.label ≤ right.label :=
    ⟨fun _ _ _ => le_trans⟩
  refine Sorting.insertionSort_eq_of_perm h fun left hleft right hright hle hge => ?_
  exact List.inj_on_of_nodup_map hnodup hleft hright (le_antisymm hle hge)

/-! ## Aliases of rules that are targets -/

/-- The rule that generates a target, if it is a generated file. -/
def HashTarget.generatingRule : HashTarget → Option String
  | .generated _ generatingRule => some generatingRule
  | _ => none

/-- The rule that generates a file, if the list has the file. -/
def generatingRuleOf (targets : List HashTarget) (name : String) : Option String :=
  (targets.find? (·.label = name)).bind HashTarget.generatingRule

/-- The slot of a name once generated files stand for their rules. -/
def aliasedSlot (slot : LabelSlot D) : Option String → LabelSlot D
  | some generatingRule => { slot with rule := some generatingRule }
  | none => slot

def insertGenerated (generated : StringMap String) : HashTarget → StringMap String
  | .generated name generatingRule => generated.insert name generatingRule
  | _ => generated

/-- When every generated file's rule is in the table, aliasing is a pass over the files that
looks at no configured key. -/
theorem aliasTargets_eq {targets : List HashTarget} (hnodup : (targets.map (·.label)).Nodup)
    {rules : Labels D} (recorder : Option RecipeRecorder)
    (hrule : ∀ name generatingRule, HashTarget.generated name generatingRule ∈ targets →
      (rules.find generatingRule).rule = some generatingRule ∧ (rules.find name).rule = none) :
    ∃ aliasing, aliasTargets rules recorder targets = .ok aliasing ∧
      aliasing.labelInstances = none ∧
      (∀ key, aliasing.rules.find key =
        aliasedSlot (rules.find key) (generatingRuleOf targets key)) ∧
      aliasing.recorder = recorder.map fun recorder =>
        { recorder with recipes := { recorder.recipes with
            generated := targets.foldl insertGenerated recorder.recipes.generated } } := by
  induction targets generalizing rules recorder with
  | nil => exact ⟨_, rfl, rfl, fun _ => rfl, by simp⟩
  | cons first rest ih =>
      obtain ⟨hfresh, hrest⟩ := List.nodup_cons.mp (List.map_cons ▸ hnodup)
      have hlater : ∀ key, first.label ≠ key →
          generatingRuleOf (first :: rest) key = generatingRuleOf rest key := by
        intro key hkey
        rw [generatingRuleOf, generatingRuleOf, List.find?_cons_of_neg (by simpa using hkey)]
      have hnone : generatingRuleOf rest first.label = none := by
        have hfind : rest.find? (·.label = first.label) = none := by
          rw [List.find?_eq_none]
          intro target htarget hlabel
          exact hfresh (List.mem_map.mpr ⟨target, htarget, of_decide_eq_true hlabel⟩)
        rw [generatingRuleOf, hfind]
        rfl
      have hself : generatingRuleOf (first :: rest) first.label = first.generatingRule := by
        rw [generatingRuleOf, List.find?_cons_of_pos (by simp)]
        rfl
      cases first with
      | rule name =>
          obtain ⟨aliasing, halias, hinstances, hfind, hrecorder⟩ := ih hrest recorder
            fun name' g hmem => hrule name' g (List.mem_cons_of_mem _ hmem)
          refine ⟨aliasing, halias, hinstances, fun key => ?_, hrecorder⟩
          by_cases hkey : name = key
          · subst hkey
            rw [hfind]
            exact congrArg (aliasedSlot _) (hnone.trans hself.symm)
          · rw [hfind, hlater key hkey]
      | source name =>
          obtain ⟨aliasing, halias, hinstances, hfind, hrecorder⟩ := ih hrest recorder
            fun name' g hmem => hrule name' g (List.mem_cons_of_mem _ hmem)
          refine ⟨aliasing, halias, hinstances, fun key => ?_, hrecorder⟩
          by_cases hkey : name = key
          · subst hkey
            rw [hfind]
            exact congrArg (aliasedSlot _) (hnone.trans hself.symm)
          · rw [hfind, hlater key hkey]
      | generated name generatingRule =>
          obtain ⟨hgenerating, hname⟩ := hrule name generatingRule List.mem_cons_self
          have hupdated : ∀ key, ((rules.update name
              (Aliasing.replaceRule name generatingRule)).find key) =
              if name = key then { rules.find name with rule := some generatingRule }
              else rules.find key := by
            intro key
            rw [SlotTable.find_update]
            split_ifs
            · simp [Aliasing.replaceRule, hname]
            · rfl
          have hstill : ∀ name' g, HashTarget.generated name' g ∈ rest →
              ((rules.update name (Aliasing.replaceRule name generatingRule)).find g).rule = some g ∧
              ((rules.update name (Aliasing.replaceRule name generatingRule)).find name').rule =
                none := by
            intro name' g hmem
            obtain ⟨hg, hname'⟩ := hrule name' g (List.mem_cons_of_mem _ hmem)
            have hne : name ≠ name' := fun heq =>
              hfresh (List.mem_map.mpr ⟨_, hmem, heq.symm⟩)
            have hneg : name ≠ g := by
              rintro rfl
              rw [hname] at hg
              cases hg
            rw [hupdated, hupdated, if_neg hneg, if_neg hne]
            exact ⟨hg, hname'⟩
          have hadd : Aliasing.addTarget { rules := rules, recorder := recorder }
              (.generated name generatingRule) = .ok
              { rules := rules.update name (Aliasing.replaceRule name generatingRule)
                recorder := recorder.map fun recorder =>
                  recorder.recordGenerated name generatingRule } := by
            simp [Aliasing.addTarget, Aliasing.add, Aliasing.generatingNode, hgenerating, okOr,
              bind, Except.bind, pure, Except.pure]
          obtain ⟨aliasing, halias, hinstances, hfind, hrecorder⟩ := ih hrest
            (recorder.map fun recorder => recorder.recordGenerated name generatingRule) hstill
          refine ⟨aliasing, ?_, hinstances, fun key => ?_, ?_⟩
          · rw [aliasTargets, List.foldlM_cons, hadd]
            exact halias
          · rw [hfind, hupdated]
            by_cases hkey : name = key
            · subst hkey
              rw [if_pos rfl]
              exact (congrArg (aliasedSlot _) hnone).trans
                (congrArg (aliasedSlot (rules.find name)) hself).symm
            · rw [if_neg hkey, hlater key hkey]
          · rw [hrecorder, Option.map_map]
            rfl

theorem insertGenerated_perm {targets targets' : List HashTarget} (h : targets.Perm targets')
    (hnodup : (targets.map (·.label)).Nodup) (generated : StringMap String) :
    targets.foldl insertGenerated generated = targets'.foldl insertGenerated generated := by
  refine h.foldl_eq' (fun first hfirst second hsecond map => ?_) generated
  by_cases heq : first = second
  · rw [heq]
  · have hlabel : first.label ≠ second.label := fun hlabel =>
      heq (List.inj_on_of_nodup_map hnodup hfirst hsecond hlabel)
    cases first <;> cases second <;> try rfl
    refine Std.ExtTreeMap.ext_getElem? fun key => ?_
    simp only [insertGenerated, Std.ExtTreeMap.getElem?_insert, Std.LawfulEqOrd.compare_eq_iff_eq]
    split_ifs with hsecondKey hfirstKey
    · exact absurd (hfirstKey.trans hsecondKey.symm) hlabel
    · rfl
    · rfl
    · rfl

/-- The order in which generated files are aliased does not matter. -/
theorem aliasTargets_perm {P Q : Prop} {targets targets' : List HashTarget}
    (hperm : targets.Perm targets') (hnodup : (targets.map (·.label)).Nodup) {l₁ l₂ : Labels D}
    (h : ∀ key, SlotRel P (l₁.find key) (l₂.find key)) {r₁ r₂ : Option RecipeRecorder}
    (hr : Option.Rel (RecorderRel Q) r₁ r₂)
    (hrule : ∀ name generatingRule, HashTarget.generated name generatingRule ∈ targets →
      (l₁.find generatingRule).rule = some generatingRule ∧ (l₁.find name).rule = none) :
    Related (AliasRel P Q) (aliasTargets l₁ r₁ targets) (aliasTargets l₂ r₂ targets') := by
  have hrule' : ∀ name generatingRule, HashTarget.generated name generatingRule ∈ targets' →
      (l₂.find generatingRule).rule = some generatingRule ∧ (l₂.find name).rule = none := by
    intro name generatingRule hmem
    rw [← (h generatingRule).rule, ← (h name).rule]
    exact hrule name generatingRule (hperm.mem_iff.mpr hmem)
  obtain ⟨a₁, h₁, hinstances₁, hfind₁, hrecorder₁⟩ := aliasTargets_eq hnodup r₁ hrule
  obtain ⟨a₂, h₂, hinstances₂, hfind₂, hrecorder₂⟩ :=
    aliasTargets_eq ((hperm.map _).nodup_iff.mp hnodup) r₂ hrule'
  rw [h₁, h₂]
  refine .ok ⟨fun key => ?_, hinstances₁.trans hinstances₂.symm, ?_⟩
  · have hgenerating : generatingRuleOf targets key = generatingRuleOf targets' key := by
      rw [generatingRuleOf, generatingRuleOf, Sorting.find?_eq_of_perm hperm hnodup key]
    rw [hfind₁, hfind₂, hgenerating]
    cases generatingRuleOf targets' key with
    | none => exact h key
    | some generatingRule => exact ⟨rfl, (h key).replaced, (h key).source⟩
  · rw [hrecorder₁, hrecorder₂]
    refine hr.map fun a b hab => ⟨hab.subincludes, ?_, hab.loading⟩
    rw [insertGenerated_perm hperm hnodup]
    exact congrArg (fun recipes : PartialRecipes => { recipes with
      generated := targets'.foldl insertGenerated recipes.generated }) hab.recipes

/-! ## The pipeline -/

variable [HashFunction D]

/-- Every generated file of a query result is generated by one of its rules. -/
def GeneratedByTargets (targets : List Target) : Prop :=
  ∀ target ∈ targets, ∀ file, generatedOf target = some file →
    (findRule targets file.generatingRule).isSome = true

instance (targets : List Target) : Decidable (GeneratedByTargets targets) :=
  inferInstanceAs (Decidable (∀ target ∈ targets, ∀ file, generatedOf target = some file → _))

omit [HashFunction D] in
theorem mem_hashTargets_generated {targets : List Target} {name generatingRule : String}
    (h : HashTarget.generated name generatingRule ∈ targets.filterMap hashTargetOf) :
    ∃ target ∈ targets, generatedOf target = some ⟨name, generatingRule⟩ := by
  obtain ⟨target, hmem, htarget⟩ := List.mem_filterMap.mp h
  refine ⟨target, hmem, ?_⟩
  rw [hashTargetOf] at htarget
  cases htype : target.type <;> simp only [htype] at htarget
  · obtain ⟨rule, -, heq⟩ := Option.map_eq_some_iff.mp htarget
    cases heq
  · obtain ⟨source, -, heq⟩ := Option.map_eq_some_iff.mp htarget
    cases heq
  · obtain ⟨file, hfile, heq⟩ := Option.map_eq_some_iff.mp htarget
    obtain ⟨hname, hrule⟩ := HashTarget.generated.inj heq
    simp [generatedOf, htype, hfile, ← hname, ← hrule]
  · cases htarget
  · cases htarget

omit [HashFunction D] in
/-- A generated file is not a rule, and its rule is. -/
theorem rule_of_generated {targets : List Target} (hnodup : (names targets).Nodup)
    (hgenerated : GeneratedByTargets targets) {name generatingRule : String}
    (h : HashTarget.generated name generatingRule ∈ targets.filterMap hashTargetOf)
    (sources : List (String × D)) :
    (slotOf targets sources generatingRule).rule = some generatingRule ∧
      (slotOf targets sources name).rule = none := by
  obtain ⟨target, hmem, hfile⟩ := mem_hashTargets_generated h
  refine ⟨?_, ?_⟩
  · obtain ⟨rule, hrule⟩ := Option.isSome_iff_exists.mp (hgenerated target hmem _ hfile)
    rw [slotOf, hrule]
    rfl
  · rw [slotOf]
    cases hrule : findRule targets name with
    | none => rfl
    | some rule =>
        obtain ⟨target', hmem', hrule', hname⟩ := (findRule_eq_some_iff hnodup).mp hrule
        have heq : target = target' := eq_of_name_eq hnodup hmem hmem'
          (targetName_of_generatedOf hfile) (hname ▸ targetName_of_ruleOf hrule')
        subst heq
        exfalso
        rw [generatedOf] at hfile
        rw [ruleOf] at hrule'
        split_ifs at hfile hrule' with hg hr
        rw [hg] at hr
        cases hr

/-- Preparing a permuted query result starts the same traversal. -/
theorem prepareTargets_perm {options : HashOptions} {targets targets' : List Target}
    (hperm : targets.Perm targets') (hnodup : (names targets).Nodup)
    (hgenerated : GeneratedByTargets targets)
    (htags : options.alwaysAffectedTags.isEmpty = true) (digests : PreparedRules D)
    (environment : Environment D) (seed : D) :
    Alike (PreparedRel True True) (prepareTargets options targets digests environment)
      (prepareTargets options targets' digests
        { environment with alwaysAffectedSeed := seed }) := by
  have hnodup' : (names targets').Nodup := (hperm.filterMap _).nodup_iff.mp hnodup
  have hlabels : ((targets.filterMap hashTargetOf).map (·.label)).Nodup :=
    nodup_filterMap (fun _ _ => targetName_of_hashTargetOf) hnodup
  have htargets : (targets.filterMap hashTargetOf).Perm (targets'.filterMap hashTargetOf) :=
    hperm.filterMap _
  have hsourceTargets : (sourceTargets targets).Perm (sourceTargets targets') :=
    (hperm.filterMap _).map _
  have hset : SettingRel True True options options environment
      { environment with alwaysAffectedSeed := seed } :=
    ⟨rfl, rfl, rfl, rfl, Or.inl htags, rfl,
      fun label => Related.refl (fun _ => Option.Rel.refl_of AgreeIf.refl _) _,
      fun _ _ => Iff.rfl⟩
  rw [prepareTargets, prepareTargets]
  by_cases hcquery : options.partialTree.isSome ∧ options.bazel.useCquery
  · rw [if_pos hcquery, if_pos hcquery]
    exact .error _ _
  · rw [if_neg hcquery, if_neg hcquery]
    refine Alike.bind (Related.refl (fun _ => rfl) _).alike fun seedHash seedHash' heq => ?_
    obtain rfl : seedHash = seedHash' := heq
    refine Alike.bind (R := Eq) ?_ fun seeds seeds' heq => ?_
    · have hseeds := bzlSeeds_perm hperm options environment
      rw [hseeds]
      exact (Related.refl (fun _ => rfl) _).alike
    · obtain rfl : seeds = seeds' := heq
      have htaken : ∀ (targets : List Target) r,
          (takeIn targets digests r).sourceTargets = sourceTargets targets ∧
          (takeIn targets digests r).hashTargets = targets.filterMap hashTargetOf := by
        intro targets r
        rw [takeIn, Intake.sourceTargets_foldl, Intake.hashTargets_foldl]
        exact ⟨List.nil_append _, List.nil_append _⟩
      have hnames : Ensures (fun sources : List (String × D) => (sources.map (·.1)).Nodup)
          (digestSources (environment.sourceHasher options) options.bazel.useCquery
            (sourceTargets targets)) := by
        refine (digestSources_names _ _ _).mono fun sources hsources => ?_
        rw [hsources]
        exact sourceTargets_nodup hnodup
      dsimp only
      rw [(htaken _ _).1, (htaken _ _).1]
      refine Alike.bind ((Alike.mapM_perm hsourceTargets).and_ensures hnames) ?_
      rintro sources sources' ⟨hsources, hn⟩
      have hn' : (sources'.map (·.1)).Nodup := (hsources.map _).nodup_iff.mp hn
      have hgraph : GraphRel True True
          ((takeIn targets digests (newRecorder options targets seedHash)).graph environment
            options sources)
          ((takeIn targets' digests (newRecorder options targets' seedHash)).graph
            { environment with alwaysAffectedSeed := seed } options sources') := by
        refine graphRel_takeIn hnodup hnodup' hn hn' (fun name => ?_) fun name => ?_
        · rw [findRule_perm hnodup hperm name]
          refine Option.Rel.refl_of (fun rule => ?_) _
          exact RawNodeRel.refl _
        · rw [Sorting.find?_eq_of_perm hsources hn name]
          refine Option.Rel.refl_of (fun source => ?_) _
          exact AgreeIf.refl _
      refine (prepareGraph_related hset seedHash seeds
        (unprepared_takeIn targets digests _ environment options _)
        (unprepared_takeIn targets' digests _ _ options _) (fun _ _ _ => rfl) ?_ ?_ ?_ ?_).alike
      · exact foldIsolatedRoot_related trivial hgraph environment options
      · rw [(htaken _ _).1, (htaken _ _).1]
        exact mappingReady_perm hsourceTargets environment options
      · rw [(htaken _ _).2, (htaken _ _).2]
        refine aliasTargets_perm htargets hlabels hgraph.rules ?_ fun name generatingRule hmem => ?_
        · rw [takeIn, takeIn, Intake.recorder_foldl, Intake.recorder_foldl, newRecorder, newRecorder,
            hasInstantiationStacks_perm hperm]
          split_ifs
          · refine .some ⟨RecipeRecorder.sameSubincludes_foldl_of_perm (hperm.filterMap _) _, ?_,
              fun _ => ?_⟩
            · rw [RecipeRecorder.recipes_foldl_recordSource,
                RecipeRecorder.recipes_foldl_recordSource]
            · rw [RecipeRecorder.recipes_foldl_recordSource,
                RecipeRecorder.recipes_foldl_recordSource]
          · exact .none
        · rw [(graph_takeIn hnodup digests _ environment options hn).2,
            (graph_takeIn hnodup digests _ environment options hn).2]
          exact rule_of_generated hnodup hgenerated hmem sources
      · rw [(htaken _ _).2, (htaken _ _).2]
        exact sortedTargets_perm htargets hlabels

/-- Query order does not matter: a permuted query result has the same hashes, the same edges
and the same recipes. -/
theorem hashTargetsWithEnvironment_perm {options : HashOptions} {targets targets' : List Target}
    (hperm : targets.Perm targets') (hnodup : (names targets).Nodup)
    (hgenerated : GeneratedByTargets targets)
    (htags : options.alwaysAffectedTags.isEmpty = true) (digests : PreparedRules D)
    (environment : Environment D) (seed : D) :
    Alike (fun file file' => file.hashes = file'.hashes ∧ file.depEdges = file'.depEdges ∧
        file.partialGraph = file'.partialGraph)
      (hashTargetsWithEnvironment options targets digests environment)
      (hashTargetsWithEnvironment options targets' digests
        { environment with alwaysAffectedSeed := seed }) := by
  refine Alike.bind (prepareTargets_perm hperm hnodup hgenerated htags digests environment seed)
    fun p₁ p₂ hp => ?_
  refine Alike.bind (run_related hp).alike fun a b hab => ?_
  have hfile : Related (FileRel True True) (hashFile options environment a.1 a.2)
      (hashFile options { environment with alwaysAffectedSeed := seed } b.1 b.2) :=
    hashFile_related rfl (Option.Rel.refl_of (fun _ => ⟨AgreeIf.refl _, fun _ => rfl⟩) _)
      hab.1.recorder hab.2
  refine (hfile.mono fun file file' h => ?_).alike
  refine ⟨(h.hashes.mono fun _ _ hh => hh.2 trivial).eq, h.depEdges, ?_⟩
  rcases h.recipes.dest with ⟨h₁, h₂⟩ | ⟨r₁, r₂, h₁, h₂, hr⟩
  · rw [h₁, h₂]
  · rw [h₁, h₂, PartialRecipes.eq_of_withoutLoading hr.1 (hr.2 trivial)]

/-- A rule in two configurations that depend on each other, and a file one of them
generates. -/
def configuredCycle : List Target :=
  [{ type := .rule
     rule := some
       { name := "//p:r|a1", ruleClass := "genrule"
         configuredRuleInput := [⟨some "//p:r", some "b2"⟩] } },
   { type := .generatedFile
     generatedFile := some { name := "//p:out|a1", generatingRule := "//p:r|a1" } },
   { type := .rule
     rule := some
       { name := "//p:r|b2", ruleClass := "genrule"
         configuredRuleInput := [⟨some "//p:r", some "a1"⟩, ⟨some "//p:out", some "a1"⟩] } }]

/-- The options of a `cquery` that tracks edges. -/
def configuredOptions : HashOptions :=
  { bazel := { useCquery := true }, trackDeps := true }

theorem hashTargetsWithEnvironment_perm_configured :
    (hashTargetsWithEnvironment configuredOptions configuredCycle SlotTable.empty .bare).toBool =
      true ∧
    Alike (fun file file' => file.hashes = file'.hashes ∧ file.depEdges = file'.depEdges ∧
        file.partialGraph = file'.partialGraph)
      (hashTargetsWithEnvironment configuredOptions configuredCycle SlotTable.empty .bare)
      (hashTargetsWithEnvironment configuredOptions configuredCycle.reverse SlotTable.empty
        { Environment.bare with alwaysAffectedSeed := digest [1] }) :=
  ⟨by decide +kernel, hashTargetsWithEnvironment_perm (List.reverse_perm _).symm (by decide)
    (by decide) (by decide) _ _ _⟩

end BazelDiff
