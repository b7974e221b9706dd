/-
# Shared inputs written out

Raw callers of the query have the inputs a hub shares with others written into its
record, and hash every record by itself. A generation keeps the shared lists apart.
The two hand the same table of labels and the same nodes to the traversal, apart from
the inputs of the hubs, and so end in the same hash file as long as the traversal
shares cleanly.
-/

import BazelDiff.Hash.OwnRecipes
import BazelDiff.Hash.PreparedInputs
import BazelDiff.Hash.SharedInputs
import BazelDiff.Hash.Streaming

namespace BazelDiff

open Text HashFunction Outcome

variable {D : Type}

/-! ## Writing shared inputs out -/

/-- A rule with the shared inputs as its own. -/
def materializeRule (shared : Option RepositoryInputGroup) (rule : Rule) : Rule :=
  { rule with ruleInput := (shared.map (·.labels)).getD rule.ruleInput }

/-- `materialize_repository_inputs`. -/
def materializeRepositoryInputs (target : Target) (shared : Option RepositoryInputGroup) :
    Target :=
  { target with rule := target.rule.map (materializeRule shared) }

/-- The preparation of a rule that shares no inputs. -/
def PreparedRule.unshared (prepared : PreparedRule D) : PreparedRule D :=
  { prepared with sharedInputs := none }

/-- Preparations without the shared inputs. -/
def unshareRules (digests : PreparedRules D) : PreparedRules D :=
  digests.map (Option.map PreparedRule.unshared)

/-- The inputs a record shares by its preparation. -/
def sharedInputsOf (digests : PreparedRules D) (target : Target) : Option RepositoryInputGroup := do
  let rule ← ruleOf target
  let prepared ← digests.find rule.name
  prepared.sharedInputs

/-- Records with the inputs they share written out. -/
def materializeTargets (digests : PreparedRules D) (targets : List Target) : List Target :=
  targets.map fun target => materializeRepositoryInputs target (sharedInputsOf digests target)

/-- A node with the inputs it shares as its own. -/
def RuleNode.written (node : RuleNode D) : RuleNode D :=
  { node with
    rule := materializeRule node.prepared.sharedInputs node.rule
    prepared := node.prepared.unshared }

theorem targetName_materialize (target : Target) (shared : Option RepositoryInputGroup) :
    targetName (materializeRepositoryInputs target shared) = targetName target := by
  rw [targetName, targetName, materializeRepositoryInputs]
  cases target.type <;> dsimp only
  rw [Option.map_map]
  rfl

theorem find_unshareRules (digests : PreparedRules D) (name : String) :
    (unshareRules digests).find name = (digests.find name).map PreparedRule.unshared :=
  digests.find_map rfl name

/-! ## Hubs -/

/-- A rule whose inputs are all shared: nodes of external repositories, in order, none of which
is the rule itself. -/
structure Hub (rule : Rule) (group : RepositoryInputGroup) : Prop where
  inputs : rule.ruleInput = []
  configured : rule.configuredRuleInput = []
  external : hasPrefix "//external:" rule.name = true
  other : rule.name ∉ group.labels
  labels : ∀ label ∈ group.labels, hasPrefix "//external:" label = true
  sorted : group.labels.Pairwise (· < ·)

theorem sortDedup_of_sorted {inputs : List String} (h : inputs.Pairwise (· < ·)) :
    sortDedup inputs = inputs := by
  have hsorted : inputs.insertionSort (· ≤ ·) = inputs :=
    (h.imp fun hlt => le_of_lt hlt).insertionSort_eq
  have hnodup : inputs.Nodup := h.imp fun hlt => ne_of_lt hlt
  rw [sortDedup, hsorted, hnodup.dedup]

theorem transformExternalInput_of_external {input : String}
    (h : hasPrefix "//external:" input = true) (fine : StringSet) (nodes : StringMap String) :
    transformExternalInput input fine nodes = input := by
  rw [transformExternalInput, syntheticInput_of_isMainRepo (isMainRepo_of_external h)]
  rfl

namespace Hub

variable {rule : Rule} {group : RepositoryInputGroup}

/-- A hub has no inputs of its own. -/
theorem ruleInputs (h : Hub rule group) (useCquery : Bool) (fine : StringSet)
    (nodes : StringMap String) : ruleInputs rule useCquery fine nodes = [] := by
  rw [BazelDiff.ruleInputs, h.inputs, h.configured]
  cases useCquery <;> rfl

/-- Written out, the shared inputs of a hub are its inputs. -/
theorem ruleInputs_materialize (h : Hub rule group) (useCquery : Bool) (fine : StringSet)
    (nodes : StringMap String) :
    BazelDiff.ruleInputs (materializeRule (some group) rule) useCquery fine nodes =
      group.labels := by
  have hconfigured : (materializeRule (some group) rule).configuredRuleInput = [] := h.configured
  have hinputs : (materializeRule (some group) rule).ruleInput = group.labels := rfl
  rw [BazelDiff.ruleInputs, hconfigured, hinputs]
  cases useCquery with
  | false =>
      have hnone : (group.labels.filter fun input => false || !hasPrefix "//external:" input) = [] := by
        rw [List.filter_eq_nil_iff]
        intro label hlabel
        simp [h.labels label hlabel]
      rw [hnone]
      simpa using sortDedup_of_sorted h.sorted
  | true =>
      have hall : ((group.labels.filter fun input => true || !hasPrefix "//external:" input).map
          fun input => transformExternalInput input fine nodes).filter
            (hasPrefix "//external:") = group.labels := by
        have hmap : group.labels.map (fun input => transformExternalInput input fine nodes) =
            group.labels := by
          rw [List.map_congr_left fun label hlabel =>
            transformExternalInput_of_external (h.labels label hlabel) fine nodes, List.map_id']
        simp only [Bool.true_or, List.filter_true, hmap]
        exact List.filter_eq_self.mpr h.labels
      rw [hall]
      simpa using sortDedup_of_sorted h.sorted

/-- The inputs of a hub go through no views. -/
theorem ruleExtension_none (h : Hub rule group) (mapping : StringMap String) :
    ruleExtension mapping rule.name = none := by
  have hnone : stripPrefix "@" (targetLabel rule.name) = none := by
    cases hstrip : stripPrefix "@" (targetLabel rule.name) with
    | none => rfl
    | some rest =>
        obtain ⟨tail, htail⟩ := (hasPrefix_iff _ _).mp h.external
        have hlabel := (stripPrefix_eq_some_iff _ _ _).mp hstrip
        rcases splitConfigured_cases rule.name with ⟨label, checksum, hkey, -, -, heq⟩ | heq
        · rw [targetLabel, heq] at hlabel
          dsimp only at hlabel
          rw [hlabel, htail] at hkey
          cases hkey
        · rw [targetLabel, heq] at hlabel
          dsimp only at hlabel
          rw [htail] at hlabel
          cases hlabel
  rw [ruleExtension, hnone]
  rfl

end Hub

namespace Lowering

variable {lowering : Lowering} {repositories : List Repository}

/-- What shares inputs is a hub. -/
theorem hub_of_mem_lowerRepositories {emitted : Target × Option RepositoryInputGroup}
    (h : emitted ∈ lowering.lowerRepositories repositories) {group : RepositoryInputGroup}
    (hgroup : emitted.2 = some group) :
    ∃ rule, emitted.1.rule = some rule ∧ ruleOf emitted.1 = some rule ∧ Hub rule group := by
  obtain ⟨rule, apparent, names, hconfigured, htarget, hother, -, hlabels⟩ :=
    exists_node_of_group h hgroup
  have hexternal : ∀ name, hasPrefix "//external:" (externalLabel name) = true :=
    fun name => (hasPrefix_iff _ _).mpr ⟨name.toList, by rw [externalLabel, String.toList_append]⟩
  rw [htarget]
  refine ⟨_, rfl, rfl, rfl, hconfigured, hexternal apparent, ?_, ?_, ?_⟩
  · rw [hlabels]
    intro hmem
    obtain ⟨name, hname, heq⟩ := List.mem_map.mp hmem
    obtain rfl : name = apparent := externalLabel_injective heq
    exact hother (Std.ExtTreeSet.mem_toList.mp hname)
  · intro label hlabel
    rw [hlabels] at hlabel
    obtain ⟨name, -, rfl⟩ := List.mem_map.mp hlabel
    exact hexternal name
  · rw [hlabels, List.pairwise_map]
    exact names.ordered_toList.imp fun hlt => externalLabel_lt (compare_lt_iff_lt.mp hlt)

end Lowering

/-! ## The intake -/

/-- An intake with the shared inputs of its nodes written out. -/
def Intake.written (intake : Intake D) : Intake D :=
  { intake with
    prepared := unshareRules intake.prepared
    nodes := intake.nodes.map fun _ => RuleNode.written }

theorem map_insert_written (nodes : StringMap (RuleNode D)) (name : String) (node : RuleNode D) :
    (nodes.insert name node).map (fun _ => RuleNode.written) =
      (nodes.map fun _ => RuleNode.written).insert name node.written := by
  apply Std.ExtTreeMap.ext_getElem?
  intro key
  rw [Std.ExtTreeMap.getElem?_map, Std.ExtTreeMap.getElem?_insert, Std.ExtTreeMap.getElem?_insert,
    Std.ExtTreeMap.getElem?_map]
  split_ifs <;> rfl

/-- One record, with the inputs it shares by the preparations at hand. -/
theorem Intake.add_written (intake : Intake D) (target : Target) :
    intake.written.add (materializeRepositoryInputs target
      (sharedInputsOf intake.prepared target)) = (intake.add target).written := by
  have htype : (materializeRepositoryInputs target
      (sharedInputsOf intake.prepared target)).type = target.type := rfl
  rw [add, add, htype]
  cases hkind : target.type with
  | rule =>
      dsimp only
      cases hrule : target.rule with
      | none =>
          rw [materializeRepositoryInputs, hrule]
          rfl
      | some rule =>
          have hshared : sharedInputsOf intake.prepared target =
              (intake.prepared.find rule.name).bind (·.sharedInputs) := by
            rw [sharedInputsOf, ruleOf, if_pos hkind, hrule]
            rfl
          rw [materializeRepositoryInputs, hrule, hshared]
          simp only [Option.map_some, Option.getD_some]
          rw [addRule, addRule]
          have hname : ∀ shared, (materializeRule shared rule).name = rule.name := fun _ => rfl
          have hfind : intake.written.prepared.find rule.name =
              (intake.prepared.find rule.name).map PreparedRule.unshared :=
            find_unshareRules intake.prepared rule.name
          dsimp only
          rw [hname, hfind]
          cases hprepared : intake.prepared.find rule.name with
          | none => rfl
          | some prepared =>
              have htaken : unshareRules (intake.prepared.update rule.name fun _ => none) =
                  (unshareRules intake.prepared).update rule.name fun _ => none :=
                intake.prepared.map_update rule.name rfl fun _ => rfl
              simp only [Option.map_some, Option.bind_some, written, map_insert_written, htaken]
              rfl
  | sourceFile =>
      cases hsource : target.sourceFile <;>
        simp [materializeRepositoryInputs, hsource, written, addSource]
  | generatedFile =>
      cases hfile : target.generatedFile <;>
        simp [materializeRepositoryInputs, hfile, written, addGenerated]
  | _ => rfl

/-- Taking a record leaves the preparations of other names. -/
theorem Intake.prepared_add (intake : Intake D) (target : Target) {name : String}
    (h : targetName target ≠ some name) :
    (intake.add target).prepared.find name = intake.prepared.find name := by
  cases hrule : ruleOf target with
  | none => rw [(intake.add_of_ruleOf_none hrule).2.2.1]
  | some rule =>
      rw [intake.add_of_ruleOf_some hrule]
      apply intake.prepared_addRule rule
      rintro rfl
      exact h (targetName_of_ruleOf hrule)

theorem sharedInputsOf_congr {digests digests' : PreparedRules D} {target : Target}
    (h : ∀ name, targetName target = some name → digests.find name = digests'.find name) :
    sharedInputsOf digests target = sharedInputsOf digests' target := by
  rw [sharedInputsOf, sharedInputsOf]
  cases hrule : ruleOf target with
  | none => rfl
  | some rule =>
      rw [Option.bind_eq_bind, Option.bind_some, h rule.name (targetName_of_ruleOf hrule)]
      rfl

/-- Records of distinct names, with the inputs they share by their preparations. -/
theorem Intake.foldl_written {targets : List Target} (hnodup : (names targets).Nodup)
    (digests : PreparedRules D) (intake : Intake D)
    (hprepared : ∀ name ∈ names targets, intake.prepared.find name = digests.find name) :
    (materializeTargets digests targets).foldl Intake.add intake.written =
      (targets.foldl Intake.add intake).written := by
  induction targets generalizing intake with
  | nil => rfl
  | cons first rest ih =>
      obtain ⟨hrest, hfresh⟩ := names_cons_nodup hnodup
      have hmem : ∀ name, targetName first = some name → name ∈ names (first :: rest) :=
        fun name hname => List.mem_filterMap.mpr ⟨first, List.mem_cons_self, hname⟩
      have hfirst : sharedInputsOf digests first = sharedInputsOf intake.prepared first :=
        sharedInputsOf_congr fun name hname => (hprepared name (hmem name hname)).symm
      rw [materializeTargets, List.map_cons, List.foldl_cons, List.foldl_cons, hfirst,
        intake.add_written]
      apply ih hrest
      intro name hname
      rw [intake.prepared_add first fun heq => hfresh name heq hname]
      obtain ⟨target, htarget, heq⟩ := List.mem_filterMap.mp hname
      exact hprepared name
        (List.mem_filterMap.mpr ⟨target, List.mem_cons_of_mem _ htarget, heq⟩)

theorem takeIn_materialized {targets : List Target} (hnodup : (names targets).Nodup)
    (digests : PreparedRules D) (recorder : Option RecipeRecorder) :
    takeIn (materializeTargets digests targets) (unshareRules digests) recorder =
      (takeIn targets digests recorder).written := by
  rw [takeIn, takeIn, ← Intake.foldl_written hnodup digests _ fun _ _ => rfl, unshareRules,
    SlotTable.fill_map]
  congr 1

/-! ## The graph -/

/-- A graph with the shared inputs of its nodes written out. -/
def Graph.written (graph : Graph D) : Graph D :=
  { graph with nodes := graph.nodes.map fun _ => RuleNode.written }

variable [HashFunction D]

theorem Intake.graph_written (intake : Intake D) (environment : Environment D)
    (options : HashOptions) (sources : List (String × D)) :
    intake.written.graph environment options sources =
      (intake.graph environment options sources).written := by
  have hsources : ∀ graph : Graph D,
      sources.foldl (fun graph source => graph.addSource source.1 source.2) graph.written =
        (sources.foldl (fun graph source => graph.addSource source.1 source.2) graph).written := by
    induction sources with
    | nil => exact fun _ => rfl
    | cons first rest ih => exact fun graph => ih (graph.addSource first.1 first.2)
  have hdecoded : ∀ (decoded : List Rule) (graph : Graph D),
      decoded.foldl (·.addDecoded environment options) graph.written =
        (decoded.foldl (·.addDecoded environment options) graph).written := by
    intro decoded
    induction decoded with
    | nil => exact fun _ => rfl
    | cons first rest ih =>
        intro graph
        have hadd : graph.written.addDecoded environment options first =
            (graph.addDecoded environment options first).written := by
          rw [Graph.addDecoded, Graph.addDecoded, Graph.written, Graph.written, map_insert_written]
          rfl
        rw [List.foldl_cons, List.foldl_cons, hadd]
        exact ih _
  rw [Intake.graph, Intake.graph, ← hdecoded, ← hsources]
  rfl

/-- Folding an isolated root touches definitions only. -/
theorem foldIsolatedRoot_written (graph : Graph D) (environment : Environment D)
    (options : HashOptions) :
    Related (fun folded folded' => folded' = folded.written)
      (graph.foldIsolatedRoot environment options)
      (graph.written.foldIsolatedRoot environment options) := by
  rw [Graph.foldIsolatedRoot, Graph.foldIsolatedRoot]
  dsimp only
  split_ifs
  · exact .ok rfl
  · cases options.bazel.isolatedDependencyRoot with
    | none => exact .error _
    | some root =>
        dsimp only
        have hrules : graph.written.rules = graph.rules := rfl
        rw [hrules]
        cases hkey : (graph.rules.find ("//external:" ++ trimStart '@' root)).rule with
        | none => exact .error _
        | some key =>
            have hnode : graph.written.nodes[key]? = (graph.nodes[key]?).map RuleNode.written :=
              Std.ExtTreeMap.getElem?_map
            rw [Option.bind_some, Option.bind_some, hnode]
            cases graph.nodes[key]? with
            | none => exact .error _
            | some hub =>
                simp only [Option.map_some, okOr, ok_bind]
                refine Related.bind (Related.refl (fun _ => rfl) _) fun inputs inputs' heq => ?_
                obtain rfl : inputs = inputs' := heq
                refine .ok ?_
                rw [Graph.written, Graph.written, map_insert_written]
                rfl

/-! ## The nodes -/

/-- Every rule that shares inputs is a hub. -/
def SharesAsHubs (digests : PreparedRules D) (targets : List Target) : Prop :=
  ∀ target ∈ targets, ∀ rule group, ruleOf target = some rule →
    sharedInputsOf digests target = some group → Hub rule group

omit [HashFunction D] in
/-- A node and what it is with its shared inputs written out. -/
theorem nodeUnshared_written (options : HashOptions) (environment : Environment D) (seedHash : D)
    (packageSeeds : StringMap D) (nodes : StringMap (RuleNode D)) {node : RuleNode D}
    (hunprepared : node.inputPositions = none)
    (hhub : ∀ group, node.prepared.sharedInputs = some group → Hub node.rule group) :
    NodeUnshared (runContext options environment seedHash packageSeeds nodes) node node.written where
  name := rfl
  ruleClass := rfl
  definition := rfl
  stack := rfl
  affected := rfl
  visibility := rfl
  unshared := rfl
  inputs := by
    have hunprepared' : node.written.inputPositions = none := hunprepared
    rw [HashContext.allInputs, HashContext.inputsOf, HashContext.inputsOf, hunprepared,
      hunprepared']
    cases hgroup : node.prepared.sharedInputs with
    | none =>
        have hrule : node.written.rule = node.rule := by
          rw [RuleNode.written, hgroup]
          rfl
        rw [hrule]
        exact (List.append_nil _).symm
    | some group =>
        have hrule : node.written.rule = materializeRule (some group) node.rule := by
          rw [RuleNode.written, hgroup]
        have h := hhub group hgroup
        simp only [Option.isSome_none, hrule, h.ruleInputs_materialize, h.ruleInputs]
        rfl
  hub group hgroup := by
    have h := hhub group hgroup
    refine ⟨?_, ?_, h.other⟩
    · rw [HashContext.inputsOf, hunprepared]
      exact h.ruleInputs _ _ _
    · rw [HashContext.extensionOf]
      split_ifs
      · exact h.ruleExtension_none _
      · rfl

/-- Nodes whose inputs were prepared, on both sides. -/
theorem NodeUnshared.of_nodeRel {context context' : HashContext D}
    {nodes nodes' nodes'' : StringMap (RuleNode D)} {node₁ node₂ node₁' node₂' : RuleNode D}
    (h : NodeUnshared context node₂ node₂')
    (hsame : context' = context.withNodes nodes)
    (hnode : NodeRel context' context node₁ node₂)
    (hnode' : NodeRel (context.withNodes nodes') (context.withNodes nodes'') node₁' node₂') :
    NodeUnshared context' node₁ node₁' := by
  subst hsame
  constructor
  · exact hnode'.name.trans (h.name.trans hnode.name.symm)
  · exact hnode'.ruleClass.trans (h.ruleClass.trans hnode.ruleClass.symm)
  · exact hnode'.definition.trans (h.definition.trans hnode.definition.symm)
  · exact hnode'.stack.trans (h.stack.trans hnode.stack.symm)
  · exact hnode'.affected.trans (h.affected.trans hnode.affected.symm)
  · exact hnode'.visibility.trans (h.visibility.trans hnode.visibility.symm)
  · exact hnode'.shared.trans h.unshared
  · have hinputs : (context.withNodes nodes).inputsOf node₁ = context.inputsOf node₂ :=
      hnode.inputs
    rw [HashContext.allInputs, hnode.shared, hinputs]
    exact hnode'.inputs.trans h.inputs
  · intro group hgroup
    rw [hnode.shared] at hgroup
    obtain ⟨hnone, hextension, hself⟩ := h.hub group hgroup
    exact ⟨hnode.inputs.trans hnone, hnode.extension.trans hextension, hnode.name ▸ hself⟩

section Start

variable {options : HashOptions} {targets : List Target} {digests : PreparedRules D}
  {environment : Environment D}

omit [HashFunction D] in
theorem unprepared_written {graph : Graph D} (h : graph.Unprepared) : graph.written.Unprepared := by
  intro name node hnode
  rw [Graph.written] at hnode
  dsimp only at hnode
  rw [Std.ExtTreeMap.getElem?_map] at hnode
  obtain ⟨original, horiginal, rfl⟩ := Option.map_eq_some_iff.mp hnode
  have hnone : original.inputPositions = none := h horiginal
  exact hnone

/-- The nodes of the two runs. -/
theorem unshares_prepare {graph : Graph D} (hkeyed : KeyedNodes graph.nodes)
    (hunprepared : graph.Unprepared)
    (hhubs : ∀ {name : String} {node : RuleNode D} {group : RepositoryInputGroup},
      graph.nodes[name]? = some node → node.prepared.sharedInputs = some group →
      Hub node.rule group)
    (hgroups : ∀ {name name' : String} {node node' : RuleNode D}
      {group group' : RepositoryInputGroup}, graph.nodes[name]? = some node →
      graph.nodes[name']? = some node' → node.prepared.sharedInputs = some group →
      node'.prepared.sharedInputs = some group' → group.extension = group'.extension →
      group.labels = group'.labels)
    (seedHash : D) (packageSeeds : StringMap D) (ready : Bool) :
    Unshares (runContext options environment seedHash packageSeeds
      (graph.prepare environment options ready).nodes)
      (graph.written.prepare environment options ready).nodes := by
  have hleft := (@contextRel_prepare D _ options environment graph hunprepared seedHash packageSeeds
    ready).nodes
  have hright := (@contextRel_prepare D _ options environment graph.written
    (unprepared_written hunprepared) seedHash packageSeeds ready).nodes
  have hfrom : ∀ {name : String} {node : RuleNode D},
      (graph.prepare environment options ready).nodes[name]? = some node →
      ∃ original, graph.nodes[name]? = some original ∧ node.rule.name = original.rule.name ∧
        node.prepared.sharedInputs = original.prepared.sharedInputs := by
    intro name node hnode
    rcases (hleft name).dest with ⟨hnone, -⟩ | ⟨found, original, hfound, horiginal, hrel⟩
    · rw [runContext] at hnone
      dsimp only at hnone
      rw [hnone] at hnode
      cases hnode
    · rw [runContext] at hfound
      dsimp only at hfound
      rw [hfound] at hnode
      obtain rfl := Option.some.inj hnode
      exact ⟨original, horiginal, hrel.name, hrel.shared⟩
  constructor
  · intro name node hnode
    obtain ⟨original, horiginal, hname, -⟩ := hfrom hnode
    exact hname.trans (hkeyed horiginal)
  · intro name
    have hwritten : graph.written.nodes[name]? = (graph.nodes[name]?).map RuleNode.written :=
      Std.ExtTreeMap.getElem?_map
    rcases (hleft name).dest with ⟨hnone, horiginal⟩ | ⟨node, original, hnode, horiginal, hrel⟩
    · rcases (hright name).dest with ⟨hnone', -⟩ | ⟨-, original', -, horiginal', -⟩
      · change Option.Rel _ (graph.prepare environment options ready).nodes[name]? _
        rw [runContext] at hnone hnone'
        dsimp only at hnone hnone'
        rw [hnone, hnone']
        exact .none
      · rw [runContext] at horiginal horiginal'
        dsimp only at horiginal horiginal'
        rw [hwritten, horiginal] at horiginal'
        cases horiginal'
    · rcases (hright name).dest with ⟨-, hnone'⟩ | ⟨node', original', hnode', horiginal', hrel'⟩
      · rw [runContext] at horiginal hnone'
        dsimp only at horiginal hnone'
        rw [hwritten, horiginal] at hnone'
        cases hnone'
      · rw [runContext] at horiginal horiginal' hnode'
        dsimp only at horiginal horiginal' hnode'
        rw [hwritten, horiginal] at horiginal'
        obtain rfl := Option.some.inj horiginal'
        rw [hnode, hnode']
        refine .some ?_
        exact (nodeUnshared_written options environment seedHash packageSeeds graph.nodes
          (hunprepared horiginal) fun group hgroup => hhubs horiginal hgroup).of_nodeRel rfl hrel
            hrel'
  · intro name name' node node' group group' hnode hnode' hgroup hgroup' hextension
    obtain ⟨original, horiginal, -, hshared⟩ := hfrom hnode
    obtain ⟨original', horiginal', -, hshared'⟩ := hfrom hnode'
    exact hgroups horiginal horiginal' (hshared ▸ hgroup) (hshared' ▸ hgroup') hextension

/-- A node comes from a record, and shares what the record shares. -/
theorem foldedNode {graph : Graph D} (hnodup : (names targets).Nodup) {seedHash : D}
    {sources : List (String × D)} (hsources : (sources.map (·.1)).Nodup)
    (hfold : (queryGraph options targets digests environment seedHash sources).foldIsolatedRoot
      environment options = .ok graph) {name : String} {node : RuleNode D}
    (hnode : graph.nodes[name]? = some node) :
    ∃ target ∈ targets, ruleOf target = some node.rule ∧ node.rule.name = name ∧
      node.prepared.sharedInputs = sharedInputsOf digests target := by
  have hrel := foldIsolatedRoot_nodes hfold name
  obtain ⟨hnodes, -⟩ := graph_takeIn hnodup digests (newRecorder options targets seedHash)
    environment options hsources
  rw [hnode, queryGraph, hnodes] at hrel
  cases hrule : findRule targets name with
  | none =>
      rw [hrule] at hrel
      cases hrel
  | some rule =>
      rw [hrule] at hrel
      cases hrel with
      | some hrel =>
          obtain ⟨hsame, hshared⟩ := hrel
          obtain ⟨target, htarget, hruleOf, hname⟩ := (findRule_eq_some_iff hnodup).mp hrule
          have hnodeRule : node.rule = rule := by
            rw [hsame, nodeOf]
            split <;> rfl
          refine ⟨target, htarget, by rw [hnodeRule, hruleOf], by rw [hnodeRule, hname], ?_⟩
          rw [hshared, sharedInputsOf, hruleOf, nodeOf]
          cases hprepared : digests.find rule.name <;> simp [decodedNode, hprepared]

omit [HashFunction D] in
/-- Writing inputs out leaves the instantiation stacks. -/
theorem hasInstantiationStacks_materialized :
    hasInstantiationStacks (materializeTargets digests targets) =
      hasInstantiationStacks targets := by
  rw [hasInstantiationStacks, hasInstantiationStacks, materializeTargets, List.any_map]
  congr 1
  funext target
  rw [Function.comp_apply, materializeRepositoryInputs]
  dsimp only
  rw [Option.any_map]
  rfl

theorem bzlSeeds_materialized :
    bzlSeeds options (materializeTargets digests targets) environment =
      bzlSeeds options targets environment := by
  have hsources : (materializeTargets digests targets).filterMap (·.sourceFile) =
      targets.filterMap (·.sourceFile) := by
    rw [materializeTargets, List.filterMap_map]
    rfl
  rw [bzlSeeds, bzlSeeds, hasInstantiationStacks_materialized, packageBzlSeeds, packageBzlSeeds,
    hsources]

section Folded

variable {graph : Graph D} {seedHash : D} {sources : List (String × D)}

/-- The nodes the two runs start with. -/
theorem unshares_start (hnodup : (names targets).Nodup) (hgroups : SharedGroups digests)
    (hhubs : SharesAsHubs digests targets) (hsources : (sources.map (·.1)).Nodup)
    (hfold : (queryGraph options targets digests environment seedHash sources).foldIsolatedRoot
      environment options = .ok graph) (packageSeeds : StringMap D) (ready : Bool) :
    Unshares (runContext options environment seedHash packageSeeds
      (graph.prepare environment options ready).nodes)
      (graph.written.prepare environment options ready).nodes := by
  have hknown : ∀ {target : Target} {group : RepositoryInputGroup},
      sharedInputsOf digests target = some group → ∃ (name : String) (rule : PreparedRule D),
        digests.find name = some rule ∧ rule.sharedInputs = some group := by
    intro target group hgroup
    obtain ⟨rule, -, hgroup⟩ := Option.bind_eq_some_iff.mp hgroup
    obtain ⟨prepared, hprepared, hgroup⟩ := Option.bind_eq_some_iff.mp hgroup
    exact ⟨rule.name, prepared, hprepared, hgroup⟩
  apply unshares_prepare
  · intro name node hnode
    obtain ⟨target, -, -, hname, -⟩ := foldedNode hnodup hsources hfold hnode
    exact hname
  · exact (foldIsolatedRoot_ok hfold).2 (unprepared_takeIn targets digests _ environment options
      sources)
  · intro name node group hnode hgroup
    obtain ⟨target, htarget, hrule, -, hshared⟩ := foldedNode hnodup hsources hfold hnode
    exact hhubs target htarget node.rule group hrule (hshared ▸ hgroup)
  · intro name name' node node' group group' hnode hnode' hgroup hgroup' hextension
    obtain ⟨target, -, -, -, hshared⟩ := foldedNode hnodup hsources hfold hnode
    obtain ⟨target', -, -, -, hshared'⟩ := foldedNode hnodup hsources hfold hnode'
    obtain ⟨key, rule, hrule, hkey⟩ := hknown (hshared ▸ hgroup)
    obtain ⟨key', rule', hrule', hkey'⟩ := hknown (hshared' ▸ hgroup')
    exact hgroups hrule hrule' hkey hkey' hextension

/-- The state the two runs start with. -/
theorem sharingOk_start (hnodup : (names targets).Nodup) (hsources : (sources.map (·.1)).Nodup)
    (hfold : (queryGraph options targets digests environment seedHash sources).foldIsolatedRoot
      environment options = .ok graph) {recorder : Option RecipeRecorder} {aliasing : Aliasing D}
    (halias : aliasTargets graph.rules recorder (targets.filterMap hashTargetOf) = .ok aliasing)
    (packageSeeds : StringMap D) (ready : Bool) (recorder' : Option RecipeRecorder) :
    SharingOk (runContext options environment seedHash packageSeeds
      (graph.prepare environment options ready).nodes)
      (graph.written.prepare environment options ready).nodes []
      { rules := aliasing.rules, labelInstances := aliasing.labelInstances,
        recorder := recorder' } := by
  have hunprepared := (foldIsolatedRoot_ok hfold).2 (unprepared_takeIn targets digests _
    environment options sources)
  have hids := aliasTargets_ids graph.rules recorder _ aliasing halias
  constructor
  · refine positionsOk_runContext (positionsOk_prepare hunprepared environment options ready) ?_
      options environment seedHash packageSeeds
    rw [prepare_rules]
    exact hids
  · refine positionsOk_runContext (positionsOk_prepare (unprepared_written hunprepared) environment
      options ready) ?_ options environment seedHash packageSeeds
    rw [prepare_rules]
    exact hids
  · have hfind : ∀ key, graph.rules.find key = slotOf targets sources key := by
      intro key
      rw [(foldIsolatedRoot_ok hfold).1, queryGraph, (graph_takeIn hnodup digests _ environment
        options hsources).2]
    refine aliasTargets_replaced (nodup_filterMap (fun _ _ => targetName_of_hashTargetOf) hnodup)
      ?_ ?_ recorder aliasing halias
    · intro name generatingRule hmem
      rw [hfind, slotOf]
      cases hrule : findRule targets name with
      | none => rfl
      | some rule => exact absurd hmem (not_generated_of_findRule hnodup hrule generatingRule)
    · intro key
      rw [hfind]
      rfl
  · intro name hfirst
    cases hfirst
  · intro name node group entry _ _ hentry
    dsimp only at hentry
    rw [Std.ExtTreeMap.getElem?_empty] at hentry
    cases hentry

end Folded

/-- What the two runs start from. -/
theorem prepareTargets_materialized (hnodup : (names targets).Nodup)
    (hgroups : SharedGroups digests) (hhubs : SharesAsHubs digests targets) :
    Related (fun prepared prepared' => ∃ nodes', Unshares prepared.context nodes' ∧
        SharingOk prepared.context nodes' [] prepared.state ∧
        prepared' = ⟨prepared.context.withNodes nodes', prepared.state.uncached,
          prepared.targets⟩)
      (prepareTargets options targets digests environment)
      (prepareTargets options (materializeTargets digests targets) (unshareRules digests)
        environment) := by
  have hrecorder : ∀ seedHash : D, newRecorder options (materializeTargets digests targets)
      seedHash = newRecorder options targets seedHash := by
    intro seedHash
    rw [newRecorder, newRecorder, hasInstantiationStacks_materialized]
  have htaken : ∀ recorder, (takeIn targets digests recorder).sourceTargets =
      sourceTargets targets := by
    intro recorder
    rw [takeIn, Intake.sourceTargets_foldl, List.nil_append]
  have hhashed : ∀ recorder, (takeIn targets digests recorder).hashTargets =
      targets.filterMap hashTargetOf := by
    intro recorder
    rw [takeIn, Intake.hashTargets_foldl, List.nil_append]
  rw [prepareTargets, prepareTargets, bzlSeeds_materialized]
  simp only [hrecorder, takeIn_materialized hnodup]
  split_ifs
  · exact .error _
  refine Related.bind (Related.refl (fun _ => rfl) _) fun seedHash seedHash' heq => ?_
  obtain rfl : seedHash = seedHash' := heq
  refine Related.bind (Related.refl (fun _ => rfl) _) fun seeds seeds' heq => ?_
  obtain rfl : seeds = seeds' := heq
  refine Related.bind_left (Related.refl (fun _ => rfl) _) fun sources sources' hsources heq => ?_
  obtain rfl : sources = sources' := heq
  rw [htaken] at hsources
  have hsourceNodup := nodup_of_digestSources hnodup hsources
  rw [Intake.graph_written, prepareGraph, prepareGraph]
  refine Related.bind_left (foldIsolatedRoot_written _ environment options) ?_
  rintro graph _ hfold rfl
  have hwritten : graph.written.rules = graph.rules := rfl
  have hparts : ∀ recorder, (takeIn targets digests recorder).written.hashTargets =
      (takeIn targets digests recorder).hashTargets ∧
      (takeIn targets digests recorder).written.sourceTargets =
        (takeIn targets digests recorder).sourceTargets ∧
      (takeIn targets digests recorder).written.recorder =
        (takeIn targets digests recorder).recorder := fun _ => ⟨rfl, rfl, rfl⟩
  simp only [prepare_rules, hwritten, hparts, hhashed, htaken]
  refine Related.bind_left (Related.refl (fun _ => rfl) _) fun aliasing aliasing' halias heq => ?_
  obtain rfl : aliasing = aliasing' := heq
  have hloading : recordLoading aliasing.rules graph.written.nodes environment.markers =
      recordLoading aliasing.rules graph.nodes environment.markers := by
    apply recordLoading_map
    exact fun _ _ => rfl
  simp only [recordLoading_prepare, hloading]
  exact .ok ⟨_, unshares_start hnodup hgroups hhubs hsourceNodup hfold seeds _,
    sharingOk_start hnodup hsourceNodup hfold halias seeds _ _, rfl⟩

/-- Writing the shared inputs of hubs out changes nothing, as long as the traversal shares
cleanly. -/
theorem hashTargets_materialized (hnodup : (names targets).Nodup)
    (hgroups : SharedGroups digests) (hhubs : SharesAsHubs digests targets)
    (hclean : ∀ prepared, prepareTargets options targets digests environment = .ok prepared →
      prepared.SharesCleanly) :
    hashTargetsWithEnvironment options targets digests environment =
      hashTargetsWithEnvironment options (materializeTargets digests targets)
        (unshareRules digests) environment := by
  have hfiles : Related (fun f f' : HashFileData D => f = f')
      (hashTargetsWithEnvironment options targets digests environment)
      (hashTargetsWithEnvironment options (materializeTargets digests targets)
        (unshareRules digests) environment) := by
    refine Related.bind_left (prepareTargets_materialized hnodup hgroups hhubs) ?_
    rintro prepared _ hprepared ⟨nodes', hunshares, hstart, rfl⟩
    refine Related.bind (run_uncached hunshares (hclean prepared hprepared) hstart) ?_
    rintro ⟨state, ds⟩ _ ⟨rfl, rfl⟩
    exact Related.refl (fun _ => rfl) _
  exact hfiles.eq_of_eq

end Start

/-! ## Generations -/

/-- A record with the inputs it shares. -/
abbrev SharingRecord := Target × Option RepositoryInputGroup

/-- The records of the module repositories as the query hands them out. -/
def sharedBatches (lowered : List SharingRecord) : Batches :=
  lowered.map fun emitted => ([emitted.1], emitted.2)

/-- The same records with the inputs they share written out. -/
def materializedBatches (lowered : List SharingRecord) : Batches :=
  lowered.map fun emitted => ([materializeRepositoryInputs emitted.1 emitted.2], none)

/-- The records of the query share nothing. -/
def queriedRecords (queried : List Target) : List SharingRecord :=
  queried.map fun target => (target, none)

/-- The record of a name that is kept: records of the query come before those of module
repositories. -/
def firstRecord (lowered : List SharingRecord) (queried : List Target) (name : String) :
    Option SharingRecord :=
  (queriedRecords queried ++ lowered).find? fun record => targetName record.1 = some name

/-- The record whose rule is filed under a name: records of the query are filed after those of
module repositories. -/
def lastRecord (lowered : List SharingRecord) (queried : List Target) (name : String) :
    Option SharingRecord :=
  (lowered ++ queriedRecords queried).reverse.find? fun record =>
    record.1.rule.map (·.name) = some name

/-- Every rule that is kept shares the inputs of the record its rule is filed from. -/
def SharesAsFiled (lowered : List SharingRecord) (queried : List Target) : Prop :=
  ∀ name first last, firstRecord lowered queried name = some first →
    (ruleOf first.1).isSome = true → lastRecord lowered queried name = some last →
    last.2 = first.2

omit [HashFunction D] in
/-- Rules of one name that all share the same inputs. -/
theorem sharesAsFiled_of_names {lowered : List SharingRecord} {queried : List Target}
    (h : ∀ record ∈ lowered ++ queriedRecords queried,
      ∀ record' ∈ lowered ++ queriedRecords queried,
        record.1.rule.map (·.name) = record'.1.rule.map (·.name) → record.2 = record'.2) :
    SharesAsFiled lowered queried := by
  intro name first last hfirst hrule hlast
  rw [firstRecord] at hfirst
  rw [lastRecord] at hlast
  obtain ⟨rule, hrule⟩ := Option.isSome_iff_exists.mp hrule
  have hname := List.find?_some hfirst
  have hlastName := List.find?_some hlast
  rw [decide_eq_true_eq] at hname hlastName
  rw [targetName_of_ruleOf hrule] at hname
  rw [ruleOf] at hrule
  split_ifs at hrule
  apply h last (List.mem_reverse.mp (List.mem_of_find?_eq_some hlast)) first
  · exact List.mem_append.mpr (List.mem_append.mp (List.mem_of_find?_eq_some hfirst)).symm
  · rw [hlastName, hrule, Option.map_some, hname]

omit [HashFunction D] in
theorem materializeRepositoryInputs_none (target : Target) :
    materializeRepositoryInputs target none = target := by
  have hrule : materializeRule none = id := rfl
  rw [materializeRepositoryInputs, hrule, Option.map_id]
  rfl

omit [HashFunction D] in
/-- Repeated names are dropped alike under two readings of a list that keep the names, and each
record that stays is the first of its name. -/
theorem exists_kept {α : Type} {f g : α → Target}
    (hname : ∀ a, targetName (g a) = targetName (f a)) (records : List α) :
    ∃ kept : List α, deduplicateTargets (records.map f) = kept.map f ∧
      deduplicateTargets (records.map g) = kept.map g ∧
      ∀ a ∈ kept, ∃ name, targetName (f a) = some name ∧
        records.find? (fun record => targetName (f record) = some name) = some a := by
  suffices h : ∀ (done rest kept : List α) (seen : List String), records = done ++ rest →
      (∀ name, name ∈ seen ↔ ∃ a ∈ done, targetName (f a) = some name) →
      (∀ a ∈ kept, ∃ name, targetName (f a) = some name ∧
        done.find? (fun record => targetName (f record) = some name) = some a) →
      ∃ kept' : List α,
        ((rest.map f).foldl deduplicateTargets.keepFirst (kept.map f, seen)).1 = kept'.map f ∧
        ((rest.map g).foldl deduplicateTargets.keepFirst (kept.map g, seen)).1 = kept'.map g ∧
        ∀ a ∈ kept', ∃ name, targetName (f a) = some name ∧
          records.find? (fun record => targetName (f record) = some name) = some a from
    h [] records [] [] rfl (by simp) (by simp)
  intro done rest
  induction rest generalizing done with
  | nil =>
      intro kept seen hrecords _ hkept
      rw [List.append_nil] at hrecords
      exact ⟨kept, rfl, rfl, hrecords ▸ hkept⟩
  | cons first rest ih =>
      intro kept seen hrecords hseen hkept
      have hnext : records = (done ++ [first]) ++ rest := by rw [hrecords, List.append_assoc]; rfl
      have hstays : ∀ a ∈ kept, ∃ name, targetName (f a) = some name ∧
          (done ++ [first]).find? (fun record => targetName (f record) = some name) = some a := by
        intro a ha
        obtain ⟨name, haname, hfind⟩ := hkept a ha
        exact ⟨name, haname, by rw [List.find?_append, hfind, Option.some_or]⟩
      rw [List.map_cons, List.map_cons, List.foldl_cons, List.foldl_cons]
      cases hfirst : targetName (f first) with
      | none =>
          have hskip : ∀ state, deduplicateTargets.keepFirst state (f first) = state := by
            intro state
            rw [deduplicateTargets.keepFirst, hfirst]
          have hskip' : ∀ state, deduplicateTargets.keepFirst state (g first) = state := by
            intro state
            rw [deduplicateTargets.keepFirst, hname, hfirst]
          rw [hskip, hskip']
          refine ih (done ++ [first]) kept seen hnext (fun name => ?_) hstays
          rw [hseen]
          simp [hfirst]
      | some name =>
          by_cases hmem : name ∈ seen
          · have hskip : ∀ kept, deduplicateTargets.keepFirst (kept, seen) (f first) =
                (kept, seen) := by
              intro kept
              simp [deduplicateTargets.keepFirst, hfirst, hmem]
            have hskip' : ∀ kept, deduplicateTargets.keepFirst (kept, seen) (g first) =
                (kept, seen) := by
              intro kept
              simp [deduplicateTargets.keepFirst, hname, hfirst, hmem]
            rw [hskip, hskip']
            refine ih (done ++ [first]) kept seen hnext (fun other => ?_) hstays
            obtain ⟨a, ha, haname⟩ := (hseen name).mp hmem
            rw [hseen]
            constructor
            · rintro ⟨b, hb, hbname⟩
              exact ⟨b, List.mem_append_left _ hb, hbname⟩
            · rintro ⟨b, hb, hbname⟩
              rcases List.mem_append.mp hb with hb | hb
              · exact ⟨b, hb, hbname⟩
              · rw [List.mem_singleton.mp hb, hfirst] at hbname
                exact ⟨a, ha, haname.trans hbname⟩
          · have hkeep : ∀ kept, deduplicateTargets.keepFirst (kept, seen) (f first) =
                (kept ++ [f first], name :: seen) := by
              intro kept
              simp [deduplicateTargets.keepFirst, hfirst, hmem]
            have hkeep' : ∀ kept, deduplicateTargets.keepFirst (kept, seen) (g first) =
                (kept ++ [g first], name :: seen) := by
              intro kept
              simp [deduplicateTargets.keepFirst, hname, hfirst, hmem]
            have hmap : kept.map f ++ [f first] = (kept ++ [first]).map f := by simp
            have hmap' : kept.map g ++ [g first] = (kept ++ [first]).map g := by simp
            rw [hkeep, hkeep', hmap, hmap']
            refine ih (done ++ [first]) (kept ++ [first]) (name :: seen) hnext (fun other => ?_) ?_
            · rw [List.mem_cons, hseen]
              constructor
              · rintro (rfl | ⟨b, hb, hbname⟩)
                · exact ⟨first, List.mem_append_right _ List.mem_cons_self, hfirst⟩
                · exact ⟨b, List.mem_append_left _ hb, hbname⟩
              · rintro ⟨b, hb, hbname⟩
                rcases List.mem_append.mp hb with hb | hb
                · exact .inr ⟨b, hb, hbname⟩
                · rw [List.mem_singleton.mp hb, hfirst] at hbname
                  exact .inl (Option.some.inj hbname).symm
            · intro a ha
              rcases List.mem_append.mp ha with ha | ha
              · exact hstays a ha
              · obtain rfl := List.mem_singleton.mp ha
                refine ⟨name, hfirst, ?_⟩
                have hnone : done.find? (fun record => targetName (f record) = some name) =
                    none := by
                  rw [List.find?_eq_none]
                  intro b hb hbname
                  exact hmem ((hseen name).mpr ⟨b, hb, of_decide_eq_true hbname⟩)
                rw [List.find?_append, hnone, Option.none_or]
                simp [hfirst]

section Generation

variable {options : HashOptions} {environment : Environment D}

/-- What a record's rule is filed under, and with what. -/
def filedRecord (options : HashOptions) (environment : Environment D) (record : SharingRecord) :
    Option (String × PreparedRule D) :=
  record.1.rule.map fun rule =>
    (rule.name, { filedRule environment.encode options (environment.workspace options) rule with
      sharedInputs := record.2 })

/-- The preparations of records, in the order they are filed in. -/
def filedRecords (options : HashOptions) (environment : Environment D)
    (records : List SharingRecord) : PreparedRules D :=
  PreparedRules.extend SlotTable.empty (records.filterMap (filedRecord options environment))

theorem prehash_record (record : SharingRecord) :
    prehash (D := D) environment.encode options (environment.workspace options) record.2 record.1 =
      (stripTarget record.1, filedRecord options environment record) := by
  obtain ⟨⟨type, rule, sourceFile, generatedFile, packageGroup, environmentGroup⟩, shared⟩ := record
  cases rule <;> rfl

/-- The inputs of a record are neither hashed with its definition nor filed. -/
theorem prehash_materialized (record : SharingRecord) :
    prehash (D := D) environment.encode options (environment.workspace options) none
        (materializeRepositoryInputs record.1 record.2) =
      (stripTarget (materializeRepositoryInputs record.1 record.2),
        (filedRecord options environment record).map fun filed => (filed.1, filed.2.unshared)) := by
  obtain ⟨⟨type, rule, sourceFile, generatedFile, packageGroup, environmentGroup⟩, shared⟩ := record
  cases rule <;> rfl

omit [HashFunction D] in
theorem extend_append (prepared : PreparedRules D) (rules rules' : List (String × PreparedRule D)) :
    PreparedRules.extend (PreparedRules.extend prepared rules) rules' =
      PreparedRules.extend prepared (rules ++ rules') := by
  rw [PreparedRules.extend, PreparedRules.extend, PreparedRules.extend, List.foldl_append]

omit [HashFunction D] in
theorem unshareRules_extend (prepared : PreparedRules D) (rules : List (String × PreparedRule D)) :
    unshareRules (PreparedRules.extend prepared rules) =
      PreparedRules.extend (unshareRules prepared)
        (rules.map fun rule => (rule.1, rule.2.unshared)) := by
  induction rules generalizing prepared with
  | nil => rfl
  | cons first rest ih =>
      have hupdate : unshareRules (prepared.update first.1 fun _ => some first.2) =
          (unshareRules prepared).update first.1 fun _ => some first.2.unshared :=
        prepared.map_update first.1 rfl fun _ => rfl
      rw [PreparedRules.extend, List.foldl_cons, List.map_cons, PreparedRules.extend,
        List.foldl_cons, ← hupdate]
      exact ih _

/-- Prehashing a batch for each record. -/
theorem prehashBatches_map {records : List SharingRecord} {f : SharingRecord → Target}
    {g : SharingRecord → Option (String × PreparedRule D)} {batches : Batches}
    (h : batches.flatMap (fun batch => batch.1.map (prehash (D := D) environment.encode options
        (environment.workspace options) batch.2)) = records.map fun record => (f record, g record))
    (prepared : PreparedRules D) :
    prehashBatches environment.encode options (environment.workspace options) prepared batches =
      (records.map f, PreparedRules.extend prepared (records.filterMap g)) := by
  rw [prehashBatches, h, List.map_map, List.filterMap_map]
  rfl

/-- What a generation hands over when hubs share inputs. -/
theorem handedOver_shared (lowered : List SharingRecord) (queried : List (List Target)) :
    handedOver options (sharedBatches lowered) (unsharedBatches queried) environment =
      (deduplicateTargets ((queriedRecords queried.flatten ++ lowered).map fun record =>
          stripTarget record.1),
        filedRecords options environment (lowered ++ queriedRecords queried.flatten)) := by
  have hlowered : (sharedBatches lowered).flatMap (fun batch => batch.1.map
      (prehash (D := D) environment.encode options (environment.workspace options) batch.2)) =
      lowered.map fun record => (stripTarget record.1, filedRecord options environment record) := by
    rw [sharedBatches, List.flatMap_map, List.map_eq_flatMap]
    congr 1
    funext record
    rw [← prehash_record]
    rfl
  have hqueried : (unsharedBatches queried).flatMap (fun batch => batch.1.map
      (prehash (D := D) environment.encode options (environment.workspace options) batch.2)) =
      (queriedRecords queried.flatten).map fun record =>
        (stripTarget record.1, filedRecord options environment record) := by
    rw [unsharedBatches, List.flatMap_map, queriedRecords, List.map_map, List.map_flatten]
    simp only [← prehash_record]
    rfl
  rw [handedOver, prehashBatches_map hlowered]
  dsimp only
  rw [prehashBatches_map hqueried, extend_append, filedRecords, List.filterMap_append,
    List.map_append]

/-- What a generation hands over when shared inputs are written out. -/
theorem handedOver_materialized (lowered : List SharingRecord) (queried : List (List Target)) :
    handedOver options (materializedBatches lowered) (unsharedBatches queried) environment =
      (deduplicateTargets ((queriedRecords queried.flatten ++ lowered).map fun record =>
          stripTarget (materializeRepositoryInputs record.1 record.2)),
        unshareRules (filedRecords options environment
          (lowered ++ queriedRecords queried.flatten))) := by
  have hlowered : (materializedBatches lowered).flatMap (fun batch => batch.1.map
      (prehash (D := D) environment.encode options (environment.workspace options) batch.2)) =
      lowered.map fun record => (stripTarget (materializeRepositoryInputs record.1 record.2),
        (filedRecord options environment record).map fun filed => (filed.1, filed.2.unshared)) := by
    rw [materializedBatches, List.flatMap_map, List.map_eq_flatMap]
    congr 1
    funext record
    rw [← prehash_materialized]
    rfl
  have hqueried : (unsharedBatches queried).flatMap (fun batch => batch.1.map
      (prehash (D := D) environment.encode options (environment.workspace options) batch.2)) =
      (queriedRecords queried.flatten).map fun record =>
        (stripTarget (materializeRepositoryInputs record.1 record.2),
          (filedRecord options environment record).map fun filed =>
            (filed.1, filed.2.unshared)) := by
    rw [unsharedBatches, List.flatMap_map, queriedRecords, List.map_map, List.map_flatten]
    simp only [← prehash_materialized, Function.comp_def, materializeRepositoryInputs_none]
    rfl
  have hempty : unshareRules (SlotTable.empty : PreparedRules D) = SlotTable.empty := rfl
  rw [handedOver, prehashBatches_map hlowered]
  dsimp only
  rw [prehashBatches_map hqueried, extend_append, filedRecords, unshareRules_extend, hempty,
    List.filterMap_append, List.map_append, List.map_append, List.map_filterMap,
    List.map_filterMap]

/-- The inputs a name shares by its preparation are those of its last record. -/
theorem find_filedRecords (lowered : List SharingRecord) (queried : List Target) (name : String) :
    ((filedRecords options environment (lowered ++ queriedRecords queried)).find name).bind
        (·.sharedInputs) =
      (lastRecord lowered queried name).bind (·.2) := by
  have hnone : (default : Option (PreparedRule D)) = none := rfl
  rw [filedRecords, find_extend, SlotTable.find_empty, hnone, Option.or_none,
    ← List.filterMap_reverse, List.find?_filterMap, lastRecord]
  have hsame : (fun record => (filedRecord options environment record).any fun filed =>
      decide (filed.1 = name)) = fun record : SharingRecord =>
        decide (record.1.rule.map (·.name) = some name) := by
    funext record
    rw [filedRecord]
    cases record.1.rule <;> simp
  rw [hsame]
  cases hlast : (lowered ++ queriedRecords queried).reverse.find? fun record =>
      decide (record.1.rule.map (·.name) = some name) with
  | none => rfl
  | some last =>
      have hname := List.find?_some hlast
      cases hrule : last.1.rule with
      | none => simp [hrule] at hname
      | some rule => simp [filedRecord, hrule]

omit [HashFunction D] in
theorem Hub.stripAttributes {rule : Rule} {group : RepositoryInputGroup} (h : Hub rule group) :
    Hub (stripAttributes rule) group :=
  ⟨h.inputs, h.configured, h.external, h.other, h.labels, h.sorted⟩

/-- The records that are kept: written out, they have the inputs that their rules are filed
with. -/
theorem kept_materialized (lowering : Lowering) (repositories : List Repository)
    {queried : List Target}
    (hfiled : SharesAsFiled (lowering.lowerRepositories repositories) queried) :
    ∃ targets, targets = deduplicateTargets ((queriedRecords queried ++
        lowering.lowerRepositories repositories).map fun record => stripTarget record.1) ∧
      materializeTargets (filedRecords options environment
          (lowering.lowerRepositories repositories ++ queriedRecords queried)) targets =
        deduplicateTargets ((queriedRecords queried ++
          lowering.lowerRepositories repositories).map fun record =>
            stripTarget (materializeRepositoryInputs record.1 record.2)) ∧
      SharesAsHubs (filedRecords options environment
        (lowering.lowerRepositories repositories ++ queriedRecords queried)) targets := by
  generalize hlowered : lowering.lowerRepositories repositories = lowered at hfiled
  have hhub : ∀ record ∈ queriedRecords queried ++ lowered, ∀ group, record.2 = some group →
      ∃ rule, record.1.rule = some rule ∧ ruleOf record.1 = some rule ∧ Hub rule group := by
    intro record hrecord group hgroup
    rcases List.mem_append.mp hrecord with hqueried | hemitted
    · obtain ⟨target, -, rfl⟩ := List.mem_map.mp hqueried
      cases hgroup
    · exact Lowering.hub_of_mem_lowerRepositories (hlowered ▸ hemitted) hgroup
  have hname : ∀ record : SharingRecord,
      targetName (stripTarget (materializeRepositoryInputs record.1 record.2)) =
        targetName (stripTarget record.1) := by
    intro record
    rw [targetName_stripTarget, targetName_stripTarget, targetName_materialize]
  obtain ⟨kept, hshared, hwritten, hfirst⟩ := exists_kept hname (queriedRecords queried ++ lowered)
  -- What a kept record shares is what its rule is filed with.
  have hinputs : ∀ record ∈ kept, record ∈ queriedRecords queried ++ lowered ∧
      ∀ rule, ruleOf record.1 = some rule →
        sharedInputsOf (filedRecords options environment (lowered ++ queriedRecords queried))
          (stripTarget record.1) = record.2 := by
    intro record hrecord
    obtain ⟨name, hrecordName, hfind⟩ := hfirst record hrecord
    refine ⟨List.mem_of_find?_eq_some hfind, fun rule hrule => ?_⟩
    simp only [targetName_stripTarget] at hrecordName hfind
    have heq : rule.name = name :=
      Option.some.inj ((targetName_of_ruleOf hrule).symm.trans hrecordName)
    have hsome : ∃ last, lastRecord lowered queried name = some last := by
      rw [← Option.isSome_iff_exists, lastRecord, List.find?_isSome]
      refine ⟨record, ?_, ?_⟩
      · rw [List.mem_reverse, List.mem_append]
        exact (List.mem_append.mp (List.mem_of_find?_eq_some hfind)).symm
      · rw [ruleOf] at hrule
        split_ifs at hrule
        simp [hrule, heq]
    obtain ⟨last, hlast⟩ := hsome
    rw [sharedInputsOf, ruleOf_stripTarget, hrule]
    have hlookup := @find_filedRecords D _ options environment lowered queried name
    have hstripped : (stripAttributes rule).name = name := heq
    rw [hlast, Option.bind_some,
      hfiled name record last hfind (by rw [hrule]; rfl) hlast] at hlookup
    rw [← hlookup, ← hstripped]
    rfl
  refine ⟨kept.map fun record => stripTarget record.1, hshared.symm, ?_, ?_⟩
  · rw [hwritten, materializeTargets, List.map_map]
    apply List.map_congr_left
    intro record hrecord
    obtain ⟨hmem, hrule⟩ := hinputs record hrecord
    have hcommutes : ∀ shared, materializeRepositoryInputs (stripTarget record.1) shared =
        stripTarget (materializeRepositoryInputs record.1 shared) := by
      intro shared
      rw [materializeRepositoryInputs, stripTarget, stripTarget, materializeRepositoryInputs,
        Option.map_map, Option.map_map]
      rfl
    rw [Function.comp_apply, hcommutes]
    cases hnone : ruleOf record.1 with
    | some rule => rw [hrule rule hnone]
    | none =>
        have hempty : sharedInputsOf (filedRecords options environment
            (lowered ++ queriedRecords queried)) (stripTarget record.1) = none := by
          rw [sharedInputsOf, ruleOf_stripTarget, hnone]
          rfl
        cases hgroup : record.2 with
        | none => rw [hempty]
        | some group =>
            obtain ⟨rule, -, hsome, -⟩ := hhub record hmem group hgroup
            rw [hnone] at hsome
            cases hsome
  · intro target htarget rule group hrule hgroup
    obtain ⟨record, hrecord, rfl⟩ := List.mem_map.mp htarget
    obtain ⟨hmem, hsame⟩ := hinputs record hrecord
    rw [ruleOf_stripTarget] at hrule
    obtain ⟨original, horiginal, rfl⟩ := Option.map_eq_some_iff.mp hrule
    obtain ⟨rule, -, hrule', hhub⟩ := hhub record hmem group ((hsame original horiginal) ▸ hgroup)
    rw [horiginal] at hrule'
    obtain rfl := Option.some.inj hrule'
    exact hhub.stripAttributes

/-- The traversal of a generation shares cleanly. -/
def GenerationSharesCleanly (options : HashOptions) (repositories batches : Batches)
    (environment : Environment D) : Prop :=
  ∀ prepared, prepareTargets options (handedOver options repositories batches environment).1
    (handedOver options repositories batches environment).2 environment = .ok prepared →
    prepared.SharesCleanly

/-- Hashing lowered repositories with the inputs their hubs share gives the hash file of the same
records with those inputs written out, as long as every hub shares what its rule is filed with
and whenever inputs are fed as one none of them has a source. -/
theorem generateHashes_materialized (options : HashOptions) (lowering : Lowering)
    (repositories : List Repository) (queried : List (List Target)) (environment : Environment D)
    (hfiled : SharesAsFiled (lowering.lowerRepositories repositories) queried.flatten)
    (hclean : GenerationSharesCleanly options
      (sharedBatches (lowering.lowerRepositories repositories)) (unsharedBatches queried)
      environment) :
    generateHashes options (sharedBatches (lowering.lowerRepositories repositories))
        (unsharedBatches queried) environment =
      generateHashes options (materializedBatches (lowering.lowerRepositories repositories))
        (unsharedBatches queried) environment := by
  have hbatches : hashBatches options (sharedBatches (lowering.lowerRepositories repositories))
      (unsharedBatches queried) environment =
      hashBatches options (materializedBatches (lowering.lowerRepositories repositories))
        (unsharedBatches queried) environment := by
    obtain ⟨targets, htargets, hwritten, hhubs⟩ := kept_materialized (D := D) lowering
      repositories hfiled
    have hplain : ∀ batch ∈ unsharedBatches queried, batch.2 = none := by
      intro batch hbatch
      obtain ⟨records, -, rfl⟩ := List.mem_map.mp hbatch
      rfl
    have hgroups : SharedGroups (handedOver options
        (sharedBatches (lowering.lowerRepositories repositories)) (unsharedBatches queried)
        environment).2 :=
      sharedGroups_lowered environment.encode options (environment.workspace options) lowering
        repositories hplain
    have hhanded : ∀ repositories : Batches,
        hashBatches options repositories (unsharedBatches queried) environment =
          hashTargetsWithEnvironment options
            (handedOver options repositories (unsharedBatches queried) environment).1
            (handedOver options repositories (unsharedBatches queried) environment).2
            environment := fun _ => rfl
    rw [GenerationSharesCleanly, handedOver_shared] at hclean
    rw [handedOver_shared] at hgroups
    rw [hhanded, hhanded, handedOver_shared, handedOver_materialized, ← hwritten]
    dsimp only at hclean hgroups ⊢
    rw [← htargets] at hclean ⊢
    refine hashTargets_materialized ?_ hgroups hhubs hclean
    rw [htargets]
    exact nodup_names_deduplicateTargets _
  rw [generateHashes, generateHashes, hbatches]

/-- A label among the shared inputs of some hub. -/
def Prepared.Shares (prepared : Prepared D) (label : String) : Prop :=
  ∃ (name : String) (node : RuleNode D) (group : RepositoryInputGroup),
    prepared.context.nodes[name]? = some node ∧ node.prepared.sharedInputs = some group ∧
      label ∈ group.labels

/-- A run shares cleanly when there is neither a source nor a file behind a shared input. -/
theorem sharesCleanly_of_noFile {targets : List Target} {digests : PreparedRules D}
    {prepared : Prepared D}
    (h : prepareTargets options targets digests environment = .ok prepared)
    (hnone : ∀ label, prepared.Shares label → ¬ NamesSource targets (targetLabel label) ∧
      ∀ d : D, prepared.context.sourceHasher.softDigest (targetLabel label) ≠ .ok (some d)) :
    prepared.SharesCleanly := by
  let I : HashState D → Prop := fun state => ∀ label, prepared.Shares label →
    (state.rules.find (targetLabel label)).source = none
  have hstart : I prepared.state := by
    intro label hshares
    have hsource := (hnone label hshares).1
    rw [← (start_sources h).2] at hsource
    simpa using hsource
  have hkept : KeptBy prepared I := by
    constructor
    · intro state state' hrules hstate label hshares
      rw [hrules]
      exact hstate label hshares
    · intro point d _ hpromotes hstate label hshares
      have hne : point.inputLabel prepared.context ≠ targetLabel label := by
        intro heq
        exact (hnone label hshares).2 d (heq ▸ hpromotes.2.2)
      rw [HashState.find_setSource, if_neg hne]
      exact hstate label hshares
  intro fuel name path state exact node group hcall henter hgroup _ label hlabel
  exact hkept.calls hstart hcall label ⟨name, node, group, henter.node, hgroup, hlabel⟩

end Generation

/-! ## A shared input that gains a source -/

/-- An extension with one imported repository, which goes by three names, and one that nobody
imports. -/
def oneHubLowering : Lowering where
  reader := ⟨fun repository => (repository, {}), fun _ _ => "definition"⟩
  canonicalToApparent := (∅ : StringMap (List String)).insert "m++e+h" ["b", "c", "z"]
  moduleEdges := ∅
  extensionEdges := some (Lowering.setOf ["m++e+h"])
  labelOnly := {}

def oneHubRepositories : List Repository :=
  [{ canonicalName := some "m++e+h" }, { canonicalName := some "m++e+a" }]

/-- A rule under the label of the hidden repository that names itself as an input. -/
def selfInputQuery : List (List Target) :=
  [[{ type := .rule
      rule := some
        { name := "//external:m++e+a|1"
          ruleClass := "r"
          ruleInput := ["//external:m++e+a|1"] } }]]

/-- A workspace `/w` with one file, under the path of the hidden repository's label. -/
def spokeFileEnvironment : Environment Preimage :=
  { Environment.bare with
    disk :=
      { metadata := fun path =>
          if path = "/w/external/m++e+a" then
            .ok { isFile := true, isDir := false, ownerExecutable := false }
          else .error .notFound
        read := fun _ => .ok [7]
        walk := fun _ => .ok [] } }

/-- The options of a query in the workspace `/w`. -/
def queryOptions : HashOptions :=
  { bazel := { workspace := "/w" } }

/-- The hash a generation over the repositories and the query gives a label. -/
def hashAfter (repositories : Batches) (label : String) : Option (TargetHash Preimage) :=
  match generateHashes queryOptions repositories (unsharedBatches selfInputQuery)
      spokeFileEnvironment with
  | .ok file => file.hashes[label]?
  | .error _ => none

/-- The first name of the hub visits the hidden repository, the second fills the cache, the rule
of the query turns the label into a source, and the third name is fed from the cache what it
would not be fed one by one. -/
theorem shared_ne_materialized :
    generateHashes queryOptions
        (sharedBatches (oneHubLowering.lowerRepositories oneHubRepositories))
        (unsharedBatches selfInputQuery) spokeFileEnvironment ≠
      generateHashes queryOptions
        (materializedBatches (oneHubLowering.lowerRepositories oneHubRepositories))
        (unsharedBatches selfInputQuery) spokeFileEnvironment := by
  have hdiffer : hashAfter (sharedBatches (oneHubLowering.lowerRepositories oneHubRepositories))
        "//external:z" ≠
      hashAfter (materializedBatches (oneHubLowering.lowerRepositories oneHubRepositories))
        "//external:z" := by
    decide +kernel
  intro heq
  rw [hashAfter, hashAfter, heq] at hdiffer
  exact hdiffer rfl

/-- The same repositories and query in a workspace without files. -/
theorem generateHashes_materialized_bare :
    generateHashes queryOptions
        (sharedBatches (oneHubLowering.lowerRepositories oneHubRepositories))
        (unsharedBatches selfInputQuery) Environment.bare =
      generateHashes queryOptions
        (materializedBatches (oneHubLowering.lowerRepositories oneHubRepositories))
        (unsharedBatches selfInputQuery) Environment.bare := by
  apply generateHashes_materialized
  · apply sharesAsFiled_of_names
    decide +kernel
  · intro prepared hprepared
    apply sharesCleanly_of_noFile hprepared
    intro label _
    constructor
    · have hnone : sourceTargets (handedOver queryOptions
          (sharedBatches (oneHubLowering.lowerRepositories oneHubRepositories))
          (unsharedBatches selfInputQuery) Environment.bare).1 = [] := by
        decide +kernel
      rw [NamesSource, hnone]
      exact List.not_mem_nil
    · intro d
      obtain ⟨seedHash, seeds, sources, graph, aliasing, -, -, -, -, -, hcontext, -⟩ :=
        prepareTargets_ok hprepared
      rw [hcontext]
      exact softDigest_bare queryOptions rfl _ d

end BazelDiff
