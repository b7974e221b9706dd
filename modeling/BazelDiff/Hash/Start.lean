/-
# The start of the traversal

What a single run of the pipeline hands to the traversal: every rule of the query result
has a node under its own name, with the definition digest it came with, and a slot that
stands for that node.
-/

import BazelDiff.Hash.Prepare

namespace BazelDiff

open Text HashFunction Outcome

variable {D : Type} [HashFunction D]

/-- The table and the nodes of a query result before an isolated root is folded. -/
def queryGraph (options : HashOptions) (targets : List Target) (digests : PreparedRules D)
    (environment : Environment D) (seedHash : D) (sources : List (String × D)) : Graph D :=
  (takeIn targets digests (newRecorder options targets seedHash)).graph environment options sources

/-- The steps that lead to the start of a traversal, and the start they lead to. -/
theorem prepareTargets_start {options : HashOptions} {targets : List Target}
    {digests : PreparedRules D} {environment : Environment D} {prepared : Prepared D}
    (h : prepareTargets options targets digests environment = .ok prepared) :
    ∃ (seedHash : D) (seeds : StringMap D) (sources : List (String × D)) (graph : Graph D)
      (aliasing : Aliasing D) (nodes : StringMap (RuleNode D)),
      hashSeedFiles environment.disk options.bazel.workspace options.seedFilepaths = .ok seedHash ∧
      bzlSeeds options targets environment = .ok seeds ∧
      digestSources (environment.sourceHasher options) options.bazel.useCquery
        (sourceTargets targets) = .ok sources ∧
      (queryGraph options targets digests environment seedHash sources).foldIsolatedRoot
        environment options = .ok graph ∧
      aliasTargets graph.rules (takeIn targets digests (newRecorder options targets
        seedHash)).recorder (targets.filterMap hashTargetOf) = .ok aliasing ∧
      nodes = (graph.prepare environment options
        (mappingReady environment options (sourceTargets targets))).nodes ∧
      prepared =
        { context := runContext options environment seedHash seeds nodes
          state := startState aliasing
            (aliasing.recorder.map (recordLoading aliasing.rules nodes environment.markers))
          targets := sortedTargets (targets.filterMap hashTargetOf) } := by
  have hhash : ∀ recorder : Option RecipeRecorder,
      (takeIn targets digests recorder).hashTargets = targets.filterMap hashTargetOf := by
    intro recorder
    rw [takeIn, Intake.hashTargets_foldl, List.nil_append]
  have hsource : ∀ recorder : Option RecipeRecorder,
      (takeIn targets digests recorder).sourceTargets = sourceTargets targets := by
    intro recorder
    rw [takeIn, Intake.sourceTargets_foldl, List.nil_append]
  rw [prepareTargets] at h
  split_ifs at h
  · cases h
  · obtain ⟨seedHash, hseed, h⟩ := bind_eq_ok h
    obtain ⟨seeds, hseeds, h⟩ := bind_eq_ok h
    obtain ⟨sources, hsources, h⟩ := bind_eq_ok h
    obtain ⟨graph, hgraph, h⟩ := bind_eq_ok h
    obtain ⟨aliasing, haliasing, h⟩ := bind_eq_ok h
    cases h
    rw [prepare_rules, hhash] at haliasing
    rw [hsource] at hsources
    refine ⟨seedHash, seeds, sources, graph, aliasing, _, hseed, hseeds, hsources, hgraph,
      haliasing, rfl, ?_⟩
    rw [hsource, hhash]
    rfl

/-- The steps that lead to the start of a traversal. -/
theorem prepareTargets_ok {options : HashOptions} {targets : List Target}
    {digests : PreparedRules D} {environment : Environment D} {prepared : Prepared D}
    (h : prepareTargets options targets digests environment = .ok prepared) :
    ∃ (seedHash : D) (seeds : StringMap D) (sources : List (String × D)) (graph : Graph D)
      (aliasing : Aliasing D),
      hashSeedFiles environment.disk options.bazel.workspace options.seedFilepaths = .ok seedHash ∧
      bzlSeeds options targets environment = .ok seeds ∧
      digestSources (environment.sourceHasher options) options.bazel.useCquery
        (sourceTargets targets) = .ok sources ∧
      (queryGraph options targets digests environment seedHash sources).foldIsolatedRoot
        environment options = .ok graph ∧
      aliasTargets graph.rules (takeIn targets digests (newRecorder options targets
        seedHash)).recorder (targets.filterMap hashTargetOf) = .ok aliasing ∧
      prepared.context = runContext options environment seedHash seeds
        (graph.prepare environment options
          (mappingReady environment options (sourceTargets targets))).nodes ∧
      prepared.state.rules = aliasing.rules ∧
      prepared.state.digests = ∅ ∧
      prepared.state.recorder = aliasing.recorder.map (recordLoading aliasing.rules
        (graph.prepare environment options
          (mappingReady environment options (sourceTargets targets))).nodes environment.markers) ∧
      prepared.targets = sortedTargets (targets.filterMap hashTargetOf) := by
  obtain ⟨seedHash, seeds, sources, graph, aliasing, nodes, hseed, hseeds, hsources, hgraph,
    haliasing, rfl, rfl⟩ := prepareTargets_start h
  exact ⟨seedHash, seeds, sources, graph, aliasing, hseed, hseeds, hsources, hgraph, haliasing,
    rfl, rfl, rfl, rfl, rfl⟩

/-- The hub of an isolated root, by the name of its node; `rule` is the node a label stands
for. -/
def hubKey (environment : Environment D) (options : HashOptions) (rule : String → Option String) :
    Option String :=
  if environment.resolver.scopedSources.repositories.isEmpty then none
  else options.bazel.isolatedDependencyRoot.bind fun root =>
    rule ("//external:" ++ trimStart '@' root)

/-- What the sources scoped to an isolated root add to the definition of its hub. -/
def Graph.scopedText (graph : Graph D) (repositories : StringSet) : List UInt8 :=
  (graph.scopedSourceLabels repositories).flatMap fun label =>
    Graph.lengthBytes label ++ utf8 label ++ (((graph.rules.find label).source).map bytes).getD []

/-- What its repository inputs add. -/
def repositoryInputTexts (environment : Environment D) (options : HashOptions) :
    Result (List (List UInt8)) :=
  environment.resolver.scopedSources.repositoryInputs.toList.mapM fun label => do
    let d : D ← repositoryInputDigest environment.disk options.bazel.workspace
      environment.resolver.outputBase label
    return Graph.lengthBytes label ++ utf8 label ++ bytes d

/-- Folding an isolated root changes the definition of its hub, to a digest that starts from
the old one, and no other. -/
theorem foldIsolatedRoot_definition {graph graph' : Graph D} {environment : Environment D}
    {options : HashOptions} (h : graph.foldIsolatedRoot environment options = .ok graph')
    {name : String} {node : RuleNode D} (hnode : graph.nodes[name]? = some node) :
    ∃ node', graph'.nodes[name]? = some node' ∧ node'.rule = node.rule ∧
      (hubKey environment options (fun key => (graph.rules.find key).rule) ≠ some name →
        node'.prepared.definitionDigest = node.prepared.definitionDigest) ∧
      (hubKey environment options (fun key => (graph.rules.find key).rule) = some name → ∃ inputs,
        repositoryInputTexts environment options = .ok inputs ∧
        node'.prepared.definitionDigest = digest (bytes node.prepared.definitionDigest ++
          graph.scopedText environment.resolver.scopedSources.repositories ++
          utf8 "repository inputs" ++ inputs.flatten)) := by
  rw [Graph.foldIsolatedRoot] at h
  dsimp only at h
  rw [hubKey]
  split_ifs at h ⊢ with hempty
  · cases h
    refine ⟨node, hnode, rfl, fun _ => rfl, ?_⟩
    intro hkey
    cases hkey
  · split at h
    · cases h
    · next root hroot =>
        obtain ⟨⟨key, hub⟩, hhub, h⟩ := bind_eq_ok h
        obtain ⟨inputs, hinputs, h⟩ := bind_eq_ok h
        cases h
        obtain ⟨k, hk, hfound⟩ := Option.bind_eq_some_iff.mp (okOr_eq_ok hhub)
        obtain ⟨found, hfind, heq⟩ := Option.map_eq_some_iff.mp hfound
        obtain ⟨rfl, rfl⟩ := Prod.mk.inj heq
        rw [hroot, Option.bind_some, hk]
        by_cases hname : k = name
        · subst hname
          obtain rfl : found = node := Option.some.inj (hfind.symm.trans hnode)
          exact ⟨_, Std.ExtTreeMap.getElem?_insert_self, rfl, fun hne => absurd rfl hne,
            fun _ => ⟨inputs, hinputs, rfl⟩⟩
        · refine ⟨node, ?_, rfl, fun _ => rfl, fun heq => absurd (Option.some.inj heq) hname⟩
          rw [Std.ExtTreeMap.getElem?_insert, if_neg (by simpa using hname)]
          exact hnode

omit [HashFunction D] in
theorem prepare_node (graph : Graph D) (environment : Environment D) (options : HashOptions)
    (ready : Bool) {name : String} {node : RuleNode D} (hnode : graph.nodes[name]? = some node) :
    ∃ node', (graph.prepare environment options ready).nodes[name]? = some node' ∧
      node'.rule.name = node.rule.name ∧ node'.prepared = node.prepared := by
  rw [Graph.prepare]
  split_ifs
  · rw [Graph.prepareInputs]
    dsimp only
    rw [Std.ExtTreeMap.getElem?_map, hnode]
    exact ⟨_, rfl, rfl, rfl⟩
  · exact ⟨node, hnode, rfl, rfl⟩

omit [HashFunction D] in
/-- What one alias changes. -/
theorem Aliasing.add_ok {aliasing aliasing' : Aliasing D} {name generatingRule : String}
    (h : aliasing.add name generatingRule = .ok aliasing') :
    ∃ node, aliasing'.rules = aliasing.rules.update name (replaceRule name node) ∧
      aliasing'.recorder = aliasing.recorder.map fun recorder =>
        recorder.recordGenerated name node := by
  obtain ⟨hrules, hrecorder⟩ : (aliasing.generatingNode generatingRule).1.rules = aliasing.rules ∧
      (aliasing.generatingNode generatingRule).1.recorder = aliasing.recorder := by
    rw [generatingNode]
    split <;> exact ⟨rfl, rfl⟩
  rw [add] at h
  generalize aliasing.generatingNode generatingRule = found at h hrules hrecorder
  obtain ⟨node, -, h⟩ := bind_eq_ok h
  cases h
  exact ⟨node, by rw [hrules], by rw [hrecorder]⟩

omit [HashFunction D] in
/-- Aliasing changes the slots of generated files only. -/
theorem aliasTargets_find (rules : Labels D) (recorder : Option RecipeRecorder)
    (targets : List HashTarget) {key : String}
    (hkey : ∀ generatingRule, HashTarget.generated key generatingRule ∉ targets) :
    Ensures (fun aliasing : Aliasing D => aliasing.rules.find key = rules.find key)
      (aliasTargets rules recorder targets) := by
  apply Ensures.foldlM
  · intro target htarget aliasing h
    cases target with
    | rule name => exact Ensures.ok h
    | source name => exact Ensures.ok h
    | generated name generatingRule =>
        intro aliasing' hadd
        obtain ⟨node, hrules, -⟩ := Aliasing.add_ok hadd
        have hne : name ≠ key := by
          rintro rfl
          exact hkey generatingRule htarget
        rw [hrules, SlotTable.find_update_of_ne _ hne, h]
  · rfl

omit [HashFunction D] in
/-- No generated file takes the place of a rule, when targets have distinct names. -/
theorem aliasTargets_replaced {rules : Labels D} {targets : List HashTarget}
    (hnodup : (targets.map (·.label)).Nodup)
    (hfresh : ∀ name generatingRule, HashTarget.generated name generatingRule ∈ targets →
      (rules.find name).rule = none)
    (hnone : ∀ key, (rules.find key).replacedCanonical = none)
    (recorder : Option RecipeRecorder) :
    Ensures (fun aliasing : Aliasing D =>
      ∀ key, (aliasing.rules.find key).replacedCanonical = none)
      (aliasTargets rules recorder targets) := by
  refine Ensures.mono (Ensures.foldlM_done (Q := fun before (aliasing : Aliasing D) =>
    (∀ key, (aliasing.rules.find key).replacedCanonical = none) ∧
      ∀ key, key ∉ before.map HashTarget.label → aliasing.rules.find key = rules.find key) ?_
    ⟨hnone, fun _ _ => rfl⟩) fun _ h => h.1
  rintro before item after rfl aliasing ⟨hreplaced, hkept⟩
  have hkept' : ∀ key, key ∉ (before ++ [item]).map HashTarget.label →
      aliasing.rules.find key = rules.find key := by
    intro key hkey
    rw [List.map_append, List.mem_append, not_or] at hkey
    exact hkept key hkey.1
  cases item with
  | rule name => exact Ensures.ok ⟨hreplaced, hkept'⟩
  | source name => exact Ensures.ok ⟨hreplaced, hkept'⟩
  | generated name generatingRule =>
      intro aliasing' hadd
      obtain ⟨node, hrules, -⟩ := Aliasing.add_ok hadd
      have hbefore : name ∉ before.map HashTarget.label := by
        rw [List.map_append, List.map_cons, List.nodup_append] at hnodup
        exact fun hmem => hnodup.2.2 name hmem name List.mem_cons_self rfl
      have hrule : (aliasing.rules.find name).rule = none := by
        rw [hkept name hbefore]
        exact hfresh name generatingRule (List.mem_append_right _ List.mem_cons_self)
      refine ⟨fun key => ?_, fun key hkey => ?_⟩
      · rw [hrules, SlotTable.find_update]
        split_ifs
        · simp [Aliasing.replaceRule, hrule, hreplaced]
        · exact hreplaced key
      · have hne : name ≠ key := by
          rintro rfl
          rw [List.map_append] at hkey
          exact hkey (List.mem_append_right _ List.mem_cons_self)
        rw [hrules, SlotTable.find_update_of_ne _ hne]
        exact hkept' key hkey

/-! ## The rules of a query result -/

section Rules

variable {options : HashOptions} {targets : List Target} {digests : PreparedRules D}
  {environment : Environment D} {prepared : Prepared D}

theorem nodup_of_digestSources (hnodup : (names targets).Nodup) {sources : List (String × D)}
    (h : digestSources (environment.sourceHasher options) options.bazel.useCquery
      (sourceTargets targets) = .ok sources) : (sources.map (·.1)).Nodup := by
  rw [digestSources_names _ _ _ sources h]
  exact sourceTargets_nodup hnodup

omit [HashFunction D] in
/-- A rule's name is not that of a generated file. -/
theorem not_generated_of_findRule (hnodup : (names targets).Nodup) {name : String} {rule : Rule}
    (hrule : findRule targets name = some rule) (generatingRule : String) :
    HashTarget.generated name generatingRule ∉ targets.filterMap hashTargetOf := by
  intro hmem
  obtain ⟨target, htarget, hhashed⟩ := List.mem_filterMap.mp hmem
  obtain ⟨target', htarget', hruleOf, hname⟩ := (findRule_eq_some_iff hnodup).mp hrule
  have hsame : target = target' := eq_of_name_eq hnodup htarget htarget'
    (targetName_of_hashTargetOf hhashed) (hname ▸ targetName_of_ruleOf hruleOf)
  subst hsame
  rw [ruleOf] at hruleOf
  split_ifs at hruleOf with htype
  rw [hashTargetOf, htype] at hhashed
  obtain ⟨rule', -, heq⟩ := Option.map_eq_some_iff.mp hhashed
  cases heq

/-- The node of a label that names a rule: the rule's own. -/
def ownRule (targets : List Target) (key : String) : Option String :=
  (findRule targets key).map fun _ => key

/-- The slot of a rule stands for its own node. -/
theorem start_slot (hnodup : (names targets).Nodup)
    (h : prepareTargets options targets digests environment = .ok prepared) {name : String}
    {rule : Rule} (hrule : findRule targets name = some rule) :
    (prepared.state.rules.find name).rule = some name ∧
      (prepared.state.rules.find name).replacedCanonical = none := by
  obtain ⟨seedHash, seeds, sources, graph, aliasing, -, -, hsources, hgraph, halias, -, hrules, -,
    -, -⟩ := prepareTargets_ok h
  have hfind := (graph_takeIn hnodup digests (newRecorder options targets seedHash) environment
    options (nodup_of_digestSources hnodup hsources)).2 name
  have hkept := aliasTargets_find graph.rules _ _
    (not_generated_of_findRule hnodup hrule) aliasing halias
  rw [(foldIsolatedRoot_ok hgraph).1] at hkept
  rw [hrules, hkept, queryGraph, hfind, slotOf, hrule]
  exact ⟨rfl, rfl⟩

/-- The rule behind a label is that of its record. -/
theorem ownRule_queryGraph (hnodup : (names targets).Nodup) {seedHash : D}
    {sources : List (String × D)} (hsources : (sources.map (·.1)).Nodup) :
    (fun key => ((queryGraph options targets digests environment seedHash sources).rules.find
      key).rule) = ownRule targets := by
  funext key
  rw [queryGraph, (graph_takeIn hnodup digests _ environment options hsources).2]
  rfl

/-- The node of a rule carries the definition digest the rule came with, or one that starts
from it if the rule is the hub of an isolated root. -/
theorem start_node (hnodup : (names targets).Nodup)
    (h : prepareTargets options targets digests environment = .ok prepared) {name : String}
    {rule : Rule} (hrule : findRule targets name = some rule) :
    ∃ node, prepared.context.nodes[name]? = some node ∧
      (hubKey environment options (ownRule targets) ≠ some name →
        node.prepared.definitionDigest =
          (nodeOf digests environment options rule).prepared.definitionDigest) ∧
      (hubKey environment options (ownRule targets) = some name → ∃ rest,
        node.prepared.definitionDigest =
          digest (bytes (nodeOf digests environment options rule).prepared.definitionDigest ++
            rest)) := by
  obtain ⟨seedHash, seeds, sources, graph, aliasing, -, -, hsources, hgraph, -, hcontext, -, -, -,
    -⟩ := prepareTargets_ok h
  have hn := nodup_of_digestSources hnodup hsources
  have hnode := (graph_takeIn hnodup digests (newRecorder options targets seedHash) environment
    options hn).1 name
  rw [hrule, Option.map_some] at hnode
  obtain ⟨folded, hfolded, -, hplain, hhub⟩ := foldIsolatedRoot_definition hgraph hnode
  obtain ⟨node, hprepared, -, hsame⟩ := prepare_node graph environment options
    (mappingReady environment options (sourceTargets targets)) hfolded
  rw [hcontext, ← ownRule_queryGraph hnodup hn]
  refine ⟨node, hprepared, hsame ▸ hplain, fun hkey => ?_⟩
  obtain ⟨inputs, -, hdefinition⟩ := hhub hkey
  rw [hsame, hdefinition, List.append_assoc, List.append_assoc]
  exact ⟨_, rfl⟩

/-- A traversal starts without recipes but with the seed files recorded, in partial-graph mode
only. -/
theorem start_recorder (h : prepareTargets options targets digests environment = .ok prepared) :
    prepared.state.recorder.map (fun recorder => (recorder.recipes.rules, recorder.recipes.seedHash)) =
      options.partialTree.map fun _ =>
        ((∅ : StringMap RuleRecipe), hexDigest prepared.context.seedHash) := by
  obtain ⟨seedHash, seeds, sources, graph, aliasing, -, -, -, -, halias, hcontext, -, -, hrecorder,
    -⟩ := prepareTargets_ok h
  have hkept : Ensures (fun aliasing : Aliasing D => aliasing.recorder.map
        (fun recorder => (recorder.recipes.rules, recorder.recipes.seedHash)) =
      (takeIn targets digests (newRecorder options targets seedHash)).recorder.map
        (fun recorder => (recorder.recipes.rules, recorder.recipes.seedHash)))
      (aliasTargets graph.rules (takeIn targets digests
        (newRecorder options targets seedHash)).recorder (targets.filterMap hashTargetOf)) := by
    apply Ensures.foldlM
    · intro target htarget aliasing h
      cases target with
      | rule name => exact Ensures.ok h
      | source name => exact Ensures.ok h
      | generated name generatingRule =>
          intro aliasing' hadd
          obtain ⟨node, -, hrecorder⟩ := Aliasing.add_ok hadd
          rw [hrecorder, Option.map_map, ← h]
          rfl
    · rfl
  have hloading : ∀ recorder : RecipeRecorder,
      ((recordLoading aliasing.rules (graph.prepare environment options
        (mappingReady environment options (sourceTargets targets))).nodes environment.markers
          recorder).recipes.rules,
        (recordLoading aliasing.rules (graph.prepare environment options
          (mappingReady environment options (sourceTargets targets))).nodes environment.markers
            recorder).recipes.seedHash) = (recorder.recipes.rules, recorder.recipes.seedHash) := by
    intro recorder
    have hrest := PartialRecipes.fields_eq (recordLoading_rest aliasing.rules (graph.prepare
      environment options (mappingReady environment options (sourceTargets targets))).nodes
        environment.markers recorder).2
    exact Prod.ext hrest.2.2.2.2.1 hrest.2.1
  rw [hrecorder, Option.map_map, hcontext]
  simp only [Function.comp_def, hloading]
  rw [hkept aliasing halias, takeIn, Intake.recorder_foldl, Option.map_map, newRecorder]
  simp only [Function.comp_def, RecipeRecorder.recipes_foldl_recordSource]
  cases options.partialTree with
  | none => rfl
  | some tree => rfl

end Rules

end BazelDiff
