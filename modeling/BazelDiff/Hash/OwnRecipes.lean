/-
# A generation and its own recipes

Full generation in partial-graph mode evaluates the recipes it has just recorded. Every
dependency in them is the canonical key of a finished rule, with one exception: the
visibility of a rule records a package group under the label that named it. The evaluation
succeeds exactly when no such label is the name of another target.
-/

import BazelDiff.Hash.OwnLabel
import BazelDiff.Hash.Recorded
import BazelDiff.Hash.QueryOrder
import BazelDiff.Partial.Derivation
import BazelDiff.Query.Repositories

namespace BazelDiff

open Text HashFunction Outcome

variable {D : Type}

/-! ## The rule a label stands for -/

/-- A label stands for the rule of its own name, or for what the rule that generates it
stands for. -/
inductive StandsFor (targets : List Target) : String → String → Prop
  | own {name : String} {rule : Rule} (h : findRule targets name = some rule) :
      StandsFor targets name name
  | generated {name generatingRule node : String}
      (hmem : HashTarget.generated name generatingRule ∈ targets.filterMap hashTargetOf)
      (h : StandsFor targets generatingRule node) : StandsFor targets name node

namespace StandsFor

variable {targets : List Target} {name node node' generatingRule : String}

theorem findRule (h : StandsFor targets name node) :
    ∃ rule, BazelDiff.findRule targets node = some rule := by
  induction h with
  | own h => exact ⟨_, h⟩
  | generated _ _ ih => exact ih

theorem mem_names (h : StandsFor targets name node) : name ∈ names targets := by
  cases h with
  | @own _ rule h =>
      have hfound := List.find?_some h
      have hmem := List.mem_of_find?_eq_some h
      obtain ⟨target, htarget, hrule⟩ := List.mem_filterMap.mp hmem
      rw [← of_decide_eq_true hfound]
      exact List.mem_filterMap.mpr ⟨target, htarget, targetName_of_ruleOf hrule⟩
  | generated hmem _ =>
      obtain ⟨target, htarget, hhashed⟩ := List.mem_filterMap.mp hmem
      exact List.mem_filterMap.mpr ⟨target, htarget, targetName_of_hashTargetOf hhashed⟩

/-- A generated file has one generating rule. -/
theorem generatingRule_eq (hnodup : (names targets).Nodup) {other : String}
    (h : HashTarget.generated name generatingRule ∈ targets.filterMap hashTargetOf)
    (h' : HashTarget.generated name other ∈ targets.filterMap hashTargetOf) :
    generatingRule = other := by
  obtain ⟨target, htarget, hhashed⟩ := List.mem_filterMap.mp h
  obtain ⟨target', htarget', hhashed'⟩ := List.mem_filterMap.mp h'
  have hname : targetName target' = some name := targetName_of_hashTargetOf hhashed'
  obtain rfl : target = target' := eq_of_name_eq hnodup htarget htarget'
    (targetName_of_hashTargetOf hhashed) hname
  rw [hhashed] at hhashed'
  exact (HashTarget.generated.inj (Option.some.inj hhashed')).2

/-- A label stands for one rule. -/
theorem unique (hnodup : (names targets).Nodup) (h : StandsFor targets name node)
    (h' : StandsFor targets name node') : node = node' := by
  induction h with
  | own hrule =>
      cases h' with
      | own _ => rfl
      | generated hmem _ => exact absurd hmem (not_generated_of_findRule hnodup hrule _)
  | generated hmem _ ih =>
      cases h' with
      | own hrule => exact absurd hmem (not_generated_of_findRule hnodup hrule _)
      | generated hmem' h' =>
          rw [generatingRule_eq hnodup hmem hmem'] at ih
          exact ih h'

end StandsFor

/-! ## Aliases of plain names -/

theorem splitConfigured_of_plain {key : String} (h : targetLabel key = key) :
    splitConfigured key = (key, none) := by
  rcases splitConfigured_cases key with ⟨label, checksum, hkey, -, -, heq⟩ | heq
  · have hlabel : label = key := by rw [← h, targetLabel, heq]
    rw [hlabel] at hkey
    have hlength := congrArg List.length hkey
    rw [List.length_append, List.length_cons] at hlength
    omega
  · exact heq

/-- Plain keys have no configured instances. -/
theorem configuredLabelInstances_of_plain {keys : List String}
    (h : ∀ key ∈ keys, targetLabel key = key) : configuredLabelInstances keys = ∅ := by
  induction keys with
  | nil => rfl
  | cons first rest ih =>
      have hfirst := splitConfigured_of_plain (h first List.mem_cons_self)
      have hrest := ih fun key hkey => h key (List.mem_cons_of_mem _ hkey)
      simp only [configuredLabelInstances, List.foldl_cons, hfirst] at hrest ⊢
      exact hrest

/-- The state of the loop over the generated files of plain names, once `done` are in. -/
structure Aliased (targets : List Target) (rules : Labels D) (recorder : Option RecipeRecorder)
    (done : List HashTarget) (aliasing : Aliasing D) : Prop where
  sound : ∀ key node, (aliasing.rules.find key).rule = some node → StandsFor targets key node
  replaced : ∀ key, (aliasing.rules.find key).replacedCanonical = none
  source : ∀ key, (aliasing.rules.find key).source = (rules.find key).source
  instances : aliasing.labelInstances.getD ∅ = ∅
  aliased : ∀ name generatingRule, HashTarget.generated name generatingRule ∈ done →
    ∃ node, (aliasing.rules.find name).rule = some node
  kept : ∀ key node, (rules.find key).rule = some node →
    ∃ node, (aliasing.rules.find key).rule = some node
  recorder : ∀ before, recorder = some before → ∃ after, aliasing.recorder = some after ∧
    after.recipes.version = before.recipes.version ∧
    after.recipes.seedHash = before.recipes.seedHash ∧
    ∀ name generatingRule, HashTarget.generated name generatingRule ∈ done →
      ∃ node, after.recipes.generated[name]? = some node ∧ StandsFor targets name node

namespace Aliased

variable {targets : List Target} {rules : Labels D} {recorder : Option RecipeRecorder}
  {done : List HashTarget} {aliasing : Aliasing D}

/-- The node that generates a file is the one its rule stands for. -/
theorem generatingNode (hplain : ∀ name ∈ names targets, targetLabel name = name)
    (h : Aliased targets rules recorder done aliasing) {generatingRule node : String}
    (hnode : (aliasing.generatingNode generatingRule).2 = some node) :
    (aliasing.rules.find generatingRule).rule = some node ∧
      (aliasing.generatingNode generatingRule).1 = aliasing := by
  rw [Aliasing.generatingNode] at hnode ⊢
  cases hrule : (aliasing.rules.find generatingRule).rule with
  | some found =>
      rw [hrule] at hnode
      exact ⟨hnode, rfl⟩
  | none =>
      have hkeys : configuredLabelInstances aliasing.rules.ruleKeys = ∅ := by
        apply configuredLabelInstances_of_plain
        intro key hkey
        have hsome : (aliasing.rules.find key).rule.isSome = true :=
          (SlotTable.mem_keysWith aliasing.rules rfl).mp hkey
        obtain ⟨found, hfound⟩ := Option.isSome_iff_exists.mp hsome
        exact hplain key (h.sound key found hfound).mem_names
      have hempty : aliasing.labelInstances.getD
          (configuredLabelInstances aliasing.rules.ruleKeys) = ∅ := by
        rw [hkeys]
        exact h.instances
      rw [hrule] at hnode
      dsimp only at hnode
      rw [hempty] at hnode
      simp at hnode

theorem add (hnodup : (names targets).Nodup)
    (hplain : ∀ name ∈ names targets, targetLabel name = name)
    (h : Aliased targets rules recorder done aliasing) {name generatingRule : String}
    (hmem : HashTarget.generated name generatingRule ∈ targets.filterMap hashTargetOf) :
    Ensures (Aliased targets rules recorder (done ++ [.generated name generatingRule]))
      (aliasing.add name generatingRule) := by
  intro after hafter
  rw [Aliasing.add] at hafter
  cases hnode : (aliasing.generatingNode generatingRule).2 with
  | none =>
      rw [show aliasing.generatingNode generatingRule =
        ((aliasing.generatingNode generatingRule).1, none) from Prod.ext rfl hnode] at hafter
      cases hafter
  | some node =>
      obtain ⟨hrule, hsame⟩ := h.generatingNode hplain hnode
      rw [show aliasing.generatingNode generatingRule = (aliasing, some node) from
        Prod.ext hsame hnode] at hafter
      obtain rfl := Except.ok.inj hafter
      have hstands : StandsFor targets name node :=
        .generated hmem (h.sound generatingRule node hrule)
      have hname : splitConfigured name = (name, none) :=
        splitConfigured_of_plain (hplain name hstands.mem_names)
      have hown : ¬ (aliasing.rules.find name).rule = some name := by
        intro hself
        obtain ⟨rule, hfound⟩ := (h.sound name name hself).findRule
        exact not_generated_of_findRule hnodup hfound generatingRule hmem
      constructor
      · intro key found hfound
        dsimp only at hfound
        rw [SlotTable.find_update] at hfound
        split_ifs at hfound with hkey
        · obtain rfl := Option.some.inj hfound
          exact hkey ▸ hstands
        · exact h.sound key found hfound
      · intro key
        dsimp only
        rw [SlotTable.find_update]
        split_ifs with hkey
        · rw [Aliasing.replaceRule]
          dsimp only
          rw [if_neg fun hboth => hown hboth.1, h.replaced]
        · exact h.replaced key
      · intro key
        dsimp only
        rw [SlotTable.find_update]
        split_ifs with hkey
        · rw [← hkey, ← h.source name]
          rfl
        · exact h.source key
      · have hindex : ∀ instances, Aliasing.indexAlias name instances = instances := by
          intro instances
          rw [Aliasing.indexAlias, hname]
        dsimp only
        cases hinstances : aliasing.labelInstances with
        | none => rfl
        | some instances =>
            rw [Option.map_some, hindex, ← hinstances]
            exact h.instances
      · intro other otherRule hother
        dsimp only
        rw [SlotTable.find_update]
        split_ifs with hkey
        · exact ⟨node, rfl⟩
        · rcases List.mem_append.mp hother with hbefore | hlast
          · exact h.aliased other otherRule hbefore
          · exact absurd (HashTarget.generated.inj (List.mem_singleton.mp hlast)).1.symm hkey
      · intro key found hfound
        dsimp only
        rw [SlotTable.find_update]
        split_ifs with hkey
        · exact ⟨node, rfl⟩
        · exact h.kept key found hfound
      · intro before hbefore
        obtain ⟨middle, hmiddle, hversion, hseed, hgenerated⟩ := h.recorder before hbefore
        refine ⟨middle.recordGenerated name node, by rw [hmiddle]; rfl, hversion, hseed, ?_⟩
        intro other otherRule hother
        change ∃ found, (middle.recipes.generated.insert name node)[other]? = some found ∧ _
        rw [Std.ExtTreeMap.getElem?_insert]
        by_cases hkey : name = other
        · subst hkey
          rw [if_pos Std.ReflOrd.compare_self]
          exact ⟨node, rfl, hstands⟩
        · rw [if_neg fun hc => hkey (Std.LawfulEqOrd.eq_of_compare hc)]
          rcases List.mem_append.mp hother with hbefore | hlast
          · exact hgenerated other otherRule hbefore
          · exact absurd (HashTarget.generated.inj (List.mem_singleton.mp hlast)).1.symm hkey

end Aliased

/-- Aliases of plain names stand for the rules that generate them. -/
theorem aliasTargets_aliased {targets : List Target} (hnodup : (names targets).Nodup)
    (hplain : ∀ name ∈ names targets, targetLabel name = name) {rules : Labels D}
    (hrules : ∀ key, (rules.find key).rule = ownRule targets key)
    (hreplaced : ∀ key, (rules.find key).replacedCanonical = none)
    (recorder : Option RecipeRecorder) :
    Ensures (Aliased targets rules recorder (targets.filterMap hashTargetOf))
      (aliasTargets rules recorder (targets.filterMap hashTargetOf)) := by
  refine Ensures.foldlM_done ?_ ?_
  · intro before target after hsplit aliasing h
    have hmem : target ∈ targets.filterMap hashTargetOf := by
      rw [hsplit]
      exact List.mem_append_right _ List.mem_cons_self
    have hskip : (∀ name generatingRule, target ≠ .generated name generatingRule) →
        Aliased targets rules recorder (before ++ [target]) aliasing := by
      intro hne
      have hdone : ∀ name generatingRule,
          HashTarget.generated name generatingRule ∈ before ++ [target] →
            HashTarget.generated name generatingRule ∈ before := by
        intro name generatingRule hother
        rcases List.mem_append.mp hother with hbefore | hlast
        · exact hbefore
        · exact absurd (List.mem_singleton.mp hlast).symm (hne name generatingRule)
      refine { h with
        aliased := fun name generatingRule hother => h.aliased name generatingRule
          (hdone name generatingRule hother)
        recorder := fun first hfirst => ?_ }
      obtain ⟨last, hlast, hversion, hseed, hgenerated⟩ := h.recorder first hfirst
      exact ⟨last, hlast, hversion, hseed, fun name generatingRule hother =>
        hgenerated name generatingRule (hdone name generatingRule hother)⟩
    cases target with
    | rule name => exact Ensures.ok (hskip nofun)
    | source name => exact Ensures.ok (hskip nofun)
    | generated name generatingRule => exact h.add hnodup hplain hmem
  · constructor
    · intro key node hnode
      dsimp only at hnode
      rw [hrules] at hnode
      obtain ⟨rule, hrule, rfl⟩ := Option.map_eq_some_iff.mp hnode
      exact .own hrule
    · exact hreplaced
    · exact fun key => rfl
    · rfl
    · exact nofun
    · exact fun key node hnode => ⟨node, hnode⟩
    · exact fun before hbefore => ⟨before, hbefore, rfl, rfl, nofun⟩

/-! ## The start of a run that records -/

/-- The hubs of one extension share one list of inputs. The lowering of repositories keeps one
group for each extension. -/
def SharedGroups (digests : PreparedRules D) : Prop :=
  ∀ ⦃name name' : String⦄ ⦃rule rule' : PreparedRule D⦄ ⦃group group' : RepositoryInputGroup⦄,
    digests.find name = some rule → digests.find name' = some rule' →
    rule.sharedInputs = some group → rule'.sharedInputs = some group' →
    group.extension = group'.extension → group.labels = group'.labels

/-- What a node keeps of the rule it was made from. -/
structure NodeFrom (digests : PreparedRules D) (rule : Rule) (node : RuleNode D) : Prop where
  ruleClass : node.rule.ruleClass = rule.ruleClass
  visibility : visibilityPackageGroups node.rule = visibilityPackageGroups rule
  shared : node.prepared.sharedInputs = (digests.find rule.name).bind (·.sharedInputs)

variable [HashFunction D]

/-- Folding an isolated root touches definitions only. -/
theorem foldIsolatedRoot_nodes {graph graph' : Graph D} {environment : Environment D}
    {options : HashOptions} (h : graph.foldIsolatedRoot environment options = .ok graph')
    (name : String) :
    Option.Rel (fun node node' => node'.rule = node.rule ∧
      node'.prepared.sharedInputs = node.prepared.sharedInputs)
      graph.nodes[name]? graph'.nodes[name]? := by
  have hrefl : Option.Rel (fun node node' : RuleNode D => node'.rule = node.rule ∧
      node'.prepared.sharedInputs = node.prepared.sharedInputs)
      graph.nodes[name]? graph.nodes[name]? :=
    Option.Rel.refl_of (fun _ => ⟨rfl, rfl⟩) _
  rw [Graph.foldIsolatedRoot] at h
  dsimp only at h
  split_ifs at h with hempty
  · cases h
    exact hrefl
  · split at h
    · cases h
    · obtain ⟨⟨key, hub⟩, hhub, h⟩ := bind_eq_ok h
      obtain ⟨inputs, -, h⟩ := bind_eq_ok h
      cases h
      obtain ⟨k, -, hfound⟩ := Option.bind_eq_some_iff.mp (okOr_eq_ok hhub)
      obtain ⟨found, hfind, heq⟩ := Option.map_eq_some_iff.mp hfound
      obtain ⟨rfl, rfl⟩ := Prod.mk.inj heq
      dsimp only
      rw [Std.ExtTreeMap.getElem?_insert]
      split_ifs with hkey
      · obtain rfl := Std.LawfulEqOrd.eq_of_compare hkey
        rw [hfind]
        exact .some ⟨rfl, rfl⟩
      · exact hrefl

/-- The nodes of a run are those of its rules. -/
theorem start_nodes {options : HashOptions} {targets : List Target} {digests : PreparedRules D}
    {environment : Environment D} {prepared : Prepared D} (hnodup : (names targets).Nodup)
    (h : prepareTargets options targets digests environment = .ok prepared) (name : String) :
    Option.Rel (NodeFrom digests) (findRule targets name) prepared.context.nodes[name]? := by
  obtain ⟨seedHash, seeds, sources, graph, aliasing, -, -, hsources, hgraph, -, hcontext, -, -, -,
    -⟩ := prepareTargets_ok h
  obtain ⟨hnodes, -⟩ := graph_takeIn hnodup digests (newRecorder options targets seedHash)
    environment options (nodup_of_digestSources hnodup hsources)
  have hfolded := foldIsolatedRoot_nodes hgraph name
  rw [queryGraph, hnodes] at hfolded
  have hof : ∀ rule node, node.rule = (nodeOf digests environment options rule).rule →
      node.prepared.sharedInputs =
        (nodeOf digests environment options rule).prepared.sharedInputs →
      NodeFrom digests rule node := by
    intro rule node hrule hshared
    rw [nodeOf] at hrule hshared
    cases hprepared : digests.find rule.name with
    | none =>
        rw [hprepared] at hrule hshared
        refine ⟨by rw [hrule]; rfl, by rw [hrule]; rfl, ?_⟩
        rw [hprepared]
        exact hshared
    | some found =>
        rw [hprepared] at hrule hshared
        refine ⟨by rw [hrule], by rw [hrule], ?_⟩
        rw [hprepared]
        exact hshared
  rw [hcontext, runContext]
  dsimp only
  cases hrule : findRule targets name with
  | none =>
      rw [hrule] at hfolded
      have hnone : graph.nodes[name]? = none := by
        cases hnode : graph.nodes[name]? with
        | none => rfl
        | some node => rw [hnode] at hfolded; cases hfolded
      rw [Graph.prepare]
      split_ifs
      · rw [Graph.prepareInputs]
        dsimp only
        rw [Std.ExtTreeMap.getElem?_map, hnone]
        exact .none
      · rw [hnone]
        exact .none
  | some rule =>
      rw [hrule] at hfolded
      cases hnode : graph.nodes[name]? with
      | none => rw [hnode] at hfolded; cases hfolded
      | some node =>
          rw [hnode] at hfolded
          obtain ⟨hsame, hshared⟩ : node.rule = (nodeOf digests environment options rule).rule ∧
              node.prepared.sharedInputs =
                (nodeOf digests environment options rule).prepared.sharedInputs := by
            cases hfolded with
            | some hfolded => exact hfolded
          have hfrom := hof rule node hsame hshared
          rw [Graph.prepare]
          split_ifs
          · rw [Graph.prepareInputs]
            dsimp only
            rw [Std.ExtTreeMap.getElem?_map, hnode]
            exact .some ⟨hfrom.ruleClass, hfrom.visibility, hfrom.shared⟩
          · rw [hnode]
            exact .some hfrom

section Start

variable {options : HashOptions} {targets : List Target} {digests : PreparedRules D}
  {environment : Environment D} {prepared : Prepared D} {tree : TreeIndex}

/-- A traversal starts without cached inputs of hubs. -/
theorem start_repositoryInputDigests
    (h : prepareTargets options targets digests environment = .ok prepared) :
    prepared.state.repositoryInputDigests = ∅ := by
  rw [prepareTargets] at h
  split_ifs at h
  · cases h
  · obtain ⟨seedHash, -, h⟩ := bind_eq_ok h
    obtain ⟨seeds, -, h⟩ := bind_eq_ok h
    obtain ⟨sources, -, h⟩ := bind_eq_ok h
    obtain ⟨graph, -, h⟩ := bind_eq_ok h
    obtain ⟨aliasing, -, h⟩ := bind_eq_ok h
    cases h
    rfl

/-- A source target or a tracked file. -/
def Readable (D : Type) [HashFunction D] (targets : List Target) (tree : TreeIndex)
    (label : String) : Prop :=
  (∃ source ∈ sourceTargets targets, source.name = label) ∨
    (softDigest tree label : Option D).isSome = true

/-- What the recorder of a run knows before the traversal. -/
structure RecorderStart (D : Type) [HashFunction D] (targets : List Target)
    (recorder : RecipeRecorder) : Prop where
  version : recorder.recipes.version = recipeVersion
  seedHash : ∃ d : D, recorder.recipes.seedHash = hexDigest d
  generated : ∀ name generatingRule,
    HashTarget.generated name generatingRule ∈ targets.filterMap hashTargetOf →
      ∃ node, recorder.recipes.generated[name]? = some node ∧ StandsFor targets name node

theorem recordable_prepareTargets (hnodup : (names targets).Nodup)
    (htree : options.partialTree = some tree) (hgroups : SharedGroups digests)
    (h : prepareTargets options targets digests environment = .ok prepared) :
    Recordable prepared.context (Readable D targets tree) := by
  have hnodes := start_nodes hnodup h
  have hcontext : prepared.context.sourceHasher = environment.sourceHasher options := by
    obtain ⟨seedHash, seeds, sources, graph, aliasing, -, -, -, -, -, hcontext, -⟩ :=
      prepareTargets_ok h
    rw [hcontext]
    rfl
  have hfrom : ∀ {name : String} {node : RuleNode D} {group : RepositoryInputGroup},
      prepared.context.nodes[name]? = some node → node.prepared.sharedInputs = some group →
      ∃ (key : String) (rule : PreparedRule D), digests.find key = some rule ∧
        rule.sharedInputs = some group := by
    intro name node group hnode hgroup
    rcases (hnodes name).dest with ⟨-, hnone⟩ | ⟨rule, found, -, hfound, hfrom⟩
    · rw [hnone] at hnode
      cases hnode
    · rw [hfound] at hnode
      obtain rfl := Option.some.inj hnode
      rw [hfrom.shared] at hgroup
      obtain ⟨preparedRule, hprepared, hshared⟩ := Option.bind_eq_some_iff.mp hgroup
      exact ⟨rule.name, preparedRule, hprepared, hshared⟩
  refine ⟨keyedNodes_prepareTargets options targets digests environment prepared h, ?_, ?_⟩
  · intro label d hsoft
    rw [hcontext, SourceHasher.softDigest_of_tree htree] at hsoft
    refine Or.inr ?_
    rw [Except.ok.inj hsoft]
    rfl
  · intro name name' node node' group group' hnode hnode' hgroup hgroup' hextension
    obtain ⟨key, rule, hfound, hshared⟩ := hfrom hnode hgroup
    obtain ⟨key', rule', hfound', hshared'⟩ := hfrom hnode' hgroup'
    exact hgroups hfound hfound' hshared hshared' hextension

/-- A run in partial-graph mode starts ready to record, and every label stands for the rule it
should. -/
theorem start_recorded (hnodup : (names targets).Nodup)
    (hplain : ∀ name ∈ names targets, targetLabel name = name)
    (htree : options.partialTree = some tree)
    (h : prepareTargets options targets digests environment = .ok prepared) :
    ∃ base, RecorderStart D targets base ∧
      Recorded prepared.context prepared.state.rules (Readable D targets tree) base []
        prepared.state ∧
      ∀ key node, (prepared.state.rules.find key).rule = some node ↔
        StandsFor targets key node := by
  have hcached := start_repositoryInputDigests h
  have hempty := start_recorder h
  obtain ⟨seedHash, seeds, sources, graph, aliasing, -, -, hsources, hgraph, halias, hcontext,
    hrules, hdigests, hrecorder, -⟩ := prepareTargets_ok h
  have hsourceNodup := nodup_of_digestSources hnodup hsources
  obtain ⟨-, hslots⟩ := graph_takeIn hnodup digests (newRecorder options targets seedHash)
    environment options hsourceNodup
  obtain ⟨hsame, hunprepared⟩ := foldIsolatedRoot_ok hgraph
  have hfind : ∀ key, graph.rules.find key = slotOf targets sources key := by
    intro key
    rw [hsame, queryGraph, hslots]
  have haliased := aliasTargets_aliased hnodup hplain
    (fun key => by rw [hfind]; rfl) (fun key => by rw [hfind]; rfl) _ aliasing halias
  have hstands : ∀ key node, (aliasing.rules.find key).rule = some node ↔
      StandsFor targets key node := by
    intro key node
    refine ⟨haliased.sound key node, fun hnode => ?_⟩
    obtain ⟨found, hfound⟩ : ∃ found, (aliasing.rules.find key).rule = some found := by
      cases hnode with
      | own hrule =>
          apply haliased.kept key key
          rw [hfind, slotOf, hrule]
          rfl
      | generated hmem _ => exact haliased.aliased _ _ hmem
    rw [hfound, (haliased.sound key found hfound).unique hnodup hnode]
  have hnew : (takeIn targets digests (newRecorder options targets seedHash)).recorder =
      some ((targets.filterMap sourceOf).foldl (fun recorder source =>
        recorder.recordSource source.name source.subinclude)
          (RecipeRecorder.new seedHash !hasInstantiationStacks targets)) := by
    rw [takeIn, Intake.recorder_foldl, newRecorder, htree]
    rfl
  obtain ⟨after, hafter, hversion, hseed, hgenerated⟩ := haliased.recorder _ hnew
  rw [RecipeRecorder.recipes_foldl_recordSource] at hversion hseed
  rw [hafter, Option.map_some] at hrecorder
  generalize hbase : recordLoading aliasing.rules (graph.prepare environment options
    (mappingReady environment options (sourceTargets targets))).nodes environment.markers after =
      base at hrecorder
  have hrest := (recordLoading_rest aliasing.rules (graph.prepare environment options
    (mappingReady environment options (sourceTargets targets))).nodes environment.markers after).2
  rw [hbase] at hrest
  obtain ⟨hversion', hseed', -, -, -, hgenerated'⟩ := PartialRecipes.fields_eq hrest
  have hnone : base.recipes.rules = ∅ := by
    rw [hrecorder, htree] at hempty
    exact (Prod.mk.inj (Option.some.inj hempty)).1
  refine ⟨base, ⟨hversion'.trans hversion, ⟨seedHash, hseed'.trans hseed⟩, ?_⟩, ?_, ?_⟩
  · intro name generatingRule hmem
    rw [hgenerated']
    exact hgenerated name generatingRule hmem
  · constructor
    · exact fun key => rfl
    · intro key
      rw [hrules]
      exact haliased.replaced key
    · intro key hkey
      rw [hrules, haliased.source, hfind, slotOf, Option.isSome_map] at hkey
      obtain ⟨source, hsource⟩ := Option.isSome_iff_exists.mp hkey
      have hname := List.find?_some hsource
      have hmem : key ∈ sources.map (·.1) :=
        List.mem_map.mpr ⟨source, List.mem_of_find?_eq_some hsource, of_decide_eq_true hname⟩
      rw [digestSources_names _ _ _ sources hsources] at hmem
      exact Or.inl (List.mem_map.mp hmem)
    · rw [hcontext]
      refine positionsOk_runContext (positionsOk_prepare (hunprepared ?_) environment options _) ?_
        options environment seedHash seeds
      · exact unprepared_takeIn targets digests (newRecorder options targets seedHash) environment
          options sources
      · intro key id hid
        rw [prepare_rules] at hid
        rw [hrules]
        exact aliasTargets_ids graph.rules _ _ aliasing halias key id hid
    · intro name node group _ _ hmem
      rw [hcached] at hmem
      simp at hmem
    · refine ⟨∅, ?_, ?_⟩
      · rw [hrecorder, ← hnone]
      · rw [hdigests]
        constructor
        · intro name
          simp
        · intro name hmem
          simp at hmem
        · intro name recipe hrecipe
          simp at hrecipe
        · intro name recipe hrecipe
          simp at hrecipe
        · intro name recipe hrecipe
          simp at hrecipe
  · intro key node
    rw [hrules]
    exact hstands key node

end Start

/-! ## The groups of lowered repositories -/

/-- Prepared rules have no groups but those their records came with. -/
theorem group_of_prehashBatches (encode : Attribute → List UInt8) (options : HashOptions)
    (workspace : Workspace) {Known : RepositoryInputGroup → Prop} {prepared : PreparedRules D}
    (hprepared : ∀ name rule group, prepared.find name = some rule →
      rule.sharedInputs = some group → Known group) {batches : Batches}
    (hbatches : ∀ batch ∈ batches, ∀ group, batch.2 = some group → Known group) :
    ∀ name rule group, (prehashBatches encode options workspace prepared batches).2.find name =
      some rule → rule.sharedInputs = some group → Known group := by
  rw [prehashBatches]
  dsimp only
  have hnew : ∀ entry ∈ (batches.flatMap fun batch =>
      batch.1.map (prehash (D := D) encode options workspace batch.2)).filterMap (·.2),
      ∀ group, entry.2.sharedInputs = some group → Known group := by
    intro entry hentry group hgroup
    obtain ⟨prehashed, hprehashed, hsome⟩ := List.mem_filterMap.mp hentry
    obtain ⟨batch, hbatch, hmem⟩ := List.mem_flatMap.mp hprehashed
    obtain ⟨target, -, rfl⟩ := List.mem_map.mp hmem
    rw [prehash] at hsome
    split at hsome
    · cases hsome
    · obtain rfl := Option.some.inj hsome
      exact hbatches batch hbatch group hgroup
  generalize (batches.flatMap fun batch =>
    batch.1.map (prehash (D := D) encode options workspace batch.2)).filterMap (·.2) = entries
    at hnew
  induction entries generalizing prepared with
  | nil => exact hprepared
  | cons first rest ih =>
      rw [PreparedRules.extend, List.foldl_cons]
      refine ih ?_ fun entry hentry => hnew entry (List.mem_cons_of_mem _ hentry)
      intro name rule group hrule hgroup
      rw [SlotTable.find_update] at hrule
      split_ifs at hrule
      · obtain rfl := Option.some.inj hrule
        exact hnew first List.mem_cons_self group hgroup
      · exact hprepared name rule group hrule hgroup

/-- The prepared rules of a generation share groups: those of lowered repositories do, and the
records of the query come without. -/
theorem sharedGroups_lowered (encode : Attribute → List UInt8) (options : HashOptions)
    (workspace : Workspace) (lowering : Lowering) (repositories : List Repository)
    {batches : Batches} (hbatches : ∀ batch ∈ batches, batch.2 = none) :
    SharedGroups (prehashBatches (D := D) encode options workspace
      (prehashBatches encode options workspace SlotTable.empty
        ((lowering.lowerRepositories repositories).map fun emitted => ([emitted.1], emitted.2))).2
      batches).2 := by
  have hlowered : ∀ name rule group, (prehashBatches (D := D) encode options workspace
      SlotTable.empty ((lowering.lowerRepositories repositories).map fun emitted =>
        ([emitted.1], emitted.2))).2.find name = some rule → rule.sharedInputs = some group →
      ∃ emitted ∈ lowering.lowerRepositories repositories, emitted.2 = some group := by
    apply group_of_prehashBatches
    · intro name rule group hrule
      rw [SlotTable.find_empty] at hrule
      cases hrule
    · intro batch hbatch group hgroup
      obtain ⟨emitted, hemitted, rfl⟩ := List.mem_map.mp hbatch
      exact ⟨emitted, hemitted, hgroup⟩
  have hknown := group_of_prehashBatches (D := D) encode options workspace hlowered
    (fun batch hbatch group hgroup => by
      rw [hbatches batch hbatch] at hgroup
      cases hgroup)
  intro name name' rule rule' group group' hrule hrule' hgroup hgroup' hextension
  obtain ⟨emitted, hemitted, hsome⟩ := hknown name rule group hrule hgroup
  obtain ⟨emitted', hemitted', hsome'⟩ := hknown name' rule' group' hrule' hgroup'
  exact Lowering.labels_of_group hemitted hemitted' hsome hsome' hextension

/-! ## The evaluation of a run's own recipes -/

/-- Some rule's visibility names a generated file that stands for a package group. -/
def HidesGroup (options : HashOptions) (targets : List Target) : Prop :=
  options.ignoredAttributes.contains "visibility" = false ∧
    ∃ name rule label node group, findRule targets name = some rule ∧
      label ∈ visibilityPackageGroups rule ∧ StandsFor targets label node ∧ node ≠ label ∧
      findRule targets node = some group ∧ group.ruleClass = "package_group"

/-- The recipes of a run cover its targets: they evaluate, every dependency has a recipe, every
generated file a rule with one, and every source can be read. -/
structure OwnRecipesOk (D : Type) [HashFunction D] (targets : List Target)
    (recipes : PartialRecipes) (kinds : StringMap String) (tree : TreeIndex) : Prop where
  evaluates : ∃ hashes : StringMap (TargetHash D), evaluate recipes kinds tree = .ok hashes
  deps : ∀ (key : String) recipe, recipes.rules[key]? = some recipe →
    ∀ dep ∈ recipe.deps, dep ∈ recipes.rules
  generated : ∀ name generatingRule,
    HashTarget.generated name generatingRule ∈ targets.filterMap hashTargetOf →
      ∃ node, recipes.generated[name]? = some node ∧ node ∈ recipes.rules
  sources : ∀ (key : String) recipe, recipes.rules[key]? = some recipe →
    ∀ label ∈ recipe.sources, Readable D targets tree label

section Own

variable {options : HashOptions} {targets : List Target} {digests : PreparedRules D}
  {environment : Environment D} {prepared : Prepared D} {tree : TreeIndex}

/-- A label is misnamed in a recipe exactly when it is a generated file that stands for a
package group. -/
theorem misnamed_iff (hnodup : (names targets).Nodup)
    (hplain : ∀ name ∈ names targets, targetLabel name = name)
    (h : prepareTargets options targets digests environment = .ok prepared)
    (hstands : ∀ key node, (prepared.state.rules.find key).rule = some node ↔
      StandsFor targets key node) :
    (∃ name dep, Misnamed prepared.context prepared.state.rules name dep) ↔
      HidesGroup options targets := by
  have hnodes := start_nodes hnodup h
  have hoptions : prepared.context.options = options := by
    obtain ⟨seedHash, seeds, sources, graph, aliasing, -, -, -, -, -, hcontext, -⟩ :=
      prepareTargets_ok h
    rw [hcontext]
    rfl
  have hrule : ∀ {name : String} {node : RuleNode D}, prepared.context.nodes[name]? = some node →
      ∃ rule, findRule targets name = some rule ∧ NodeFrom digests rule node := by
    intro name node hnode
    rcases (hnodes name).dest with ⟨-, hnone⟩ | ⟨rule, found, hrule, hfound, hfrom⟩
    · rw [hnone] at hnode
      cases hnode
    · rw [hfound] at hnode
      obtain rfl := Option.some.inj hnode
      exact ⟨rule, hrule, hfrom⟩
  have hnode : ∀ {name : String} {rule : Rule}, findRule targets name = some rule →
      ∃ node, prepared.context.nodes[name]? = some node ∧ NodeFrom digests rule node := by
    intro name rule hrule
    rcases (hnodes name).dest with ⟨hnone, -⟩ | ⟨found, node, hfound, hnode, hfrom⟩
    · rw [hnone] at hrule
      cases hrule
    · rw [hfound] at hrule
      obtain rfl := Option.some.inj hrule
      exact ⟨node, hnode, hfrom⟩
  constructor
  · rintro ⟨name, dep, node, group, groupNode, hname, hdep, -, hgroup, hgroupNode, hclass, hne⟩
    obtain ⟨rule, hfound, hfrom⟩ := hrule hname
    obtain ⟨groupRule, hgroupRule, hgroupFrom⟩ := hrule hgroupNode
    rw [HashContext.visibilityOf, hoptions] at hdep
    split_ifs at hdep with hignored
    · exact absurd hdep List.not_mem_nil
    · rw [hfrom.visibility] at hdep
      exact ⟨Bool.eq_false_iff.mpr hignored, name, rule, dep, group, groupRule, hfound, hdep,
        (hstands dep group).mp hgroup, hne, hgroupRule, hgroupFrom.ruleClass ▸ hclass⟩
  · rintro ⟨hignored, name, rule, label, group, groupRule, hfound, hlabel, hgroup, hne, hgroupRule,
      hclass⟩
    obtain ⟨node, hname, hfrom⟩ := hnode hfound
    obtain ⟨groupNode, hgroupNode, hgroupFrom⟩ := hnode hgroupRule
    refine ⟨name, label, node, group, groupNode, hname, ?_, ?_, (hstands label group).mpr hgroup,
      hgroupNode, hgroupFrom.ruleClass ▸ hclass, hne⟩
    · rw [HashContext.visibilityOf, hoptions, hignored, if_neg Bool.false_ne_true,
        hfrom.visibility]
      exact hlabel
    · have hown : StandsFor targets name name := .own hfound
      rw [hplain name hown.mem_names]
      rintro rfl
      exact hne (hgroup.unique hnodup hown)

omit [HashFunction D] in
theorem mem_sourceLabels {kinds : StringMap String} {label : String}
    (h : kinds[label]? = some "SourceFile") : label ∈ sourceLabels kinds :=
  List.mem_map.mpr ⟨(label, "SourceFile"), List.mem_filter.mpr
    ⟨Std.ExtTreeMap.mem_toList_iff_getElem?_eq_some.mpr h, rfl⟩, rfl⟩

omit [HashFunction D] in
/-- The rule of a target that is one. -/
theorem findRule_of_mem (hnodup : (names targets).Nodup) {name : String}
    (h : HashTarget.rule name ∈ targets.filterMap hashTargetOf) :
    ∃ rule, findRule targets name = some rule := by
  obtain ⟨target, hmem, hhashed⟩ := List.mem_filterMap.mp h
  rw [hashTargetOf] at hhashed
  cases htype : target.type <;> simp only [htype] at hhashed
  · obtain ⟨rule, hrule, heq⟩ := Option.map_eq_some_iff.mp hhashed
    refine ⟨rule, (findRule_eq_some_iff hnodup).mpr ⟨target, hmem, ?_, HashTarget.rule.inj heq⟩⟩
    rw [ruleOf, htype, if_pos rfl, hrule]
  · obtain ⟨source, -, heq⟩ := Option.map_eq_some_iff.mp hhashed
    cases heq
  · obtain ⟨file, -, heq⟩ := Option.map_eq_some_iff.mp hhashed
    cases heq
  · cases hhashed
  · cases hhashed

omit [HashFunction D] in
/-- A source target is hashed under its name. -/
theorem mem_hashTargets_source {source : SourceTarget} (h : source ∈ sourceTargets targets) :
    HashTarget.source source.name ∈ targets.filterMap hashTargetOf := by
  obtain ⟨file, hfile, rfl⟩ := List.mem_map.mp h
  obtain ⟨target, hmem, hsource⟩ := List.mem_filterMap.mp hfile
  rw [sourceOf] at hsource
  split_ifs at hsource with htype
  refine List.mem_filterMap.mpr ⟨target, hmem, ?_⟩
  rw [hashTargetOf, htype, hsource]
  rfl

/-- Recipes without a misnamed dependency cover the targets of the run. -/
theorem ownRecipesOk_of_recorded (hnodup : (names targets).Nodup) {base recorder : RecipeRecorder}
    (hbase : RecorderStart D targets base) {rules : Labels D}
    (hstands : ∀ key node, (rules.find key).rule = some node ↔ StandsFor targets key node)
    {context : HashContext D} {state : HashState D}
    (hstate : Recorded context rules (Readable D targets tree) base [] state)
    (hrecorder : state.recorder = some recorder)
    (hhashed : ∀ target ∈ targets.filterMap hashTargetOf, Hashed rules state.digests target)
    (hnone : ¬ ∃ name dep, Misnamed context rules name dep) {kinds : StringMap String}
    (hkinds : ∀ label kind, kinds[label]? = some kind ↔
      ∃ target ∈ targets.filterMap hashTargetOf, target.label = label ∧ target.kind = kind) :
    OwnRecipesOk D targets recorder.finish kinds tree := by
  obtain ⟨recipes, hrecipes, hok⟩ := hstate.recorder
  rw [hrecorder] at hrecipes
  obtain rfl := Option.some.inj hrecipes
  obtain ⟨hversion, hseed, hrules, hgenerated⟩ := RecipeRecorder.finish_rest
    { base with recipes := { base.recipes with rules := recipes } }
  dsimp only at hversion hseed hrules hgenerated
  have hdeps : ∀ (key : String) recipe, recipes[key]? = some recipe →
      ∀ dep ∈ recipe.deps, dep ∈ recipes := by
    intro key recipe hrecipe dep hdep
    rcases (hok.covered key recipe hrecipe).deps dep hdep with hmem | hmem | hmisnamed
    · exact (hok.finished dep).mpr hmem
    · exact absurd hmem List.not_mem_nil
    · exact absurd ⟨key, dep, hmisnamed⟩ hnone
  have hsources : ∀ (key : String) recipe, recipes[key]? = some recipe →
      ∀ label ∈ recipe.sources, Readable D targets tree label :=
    fun key recipe hrecipe => (hok.covered key recipe hrecipe).sources
  have hnodes : ∀ name generatingRule,
      HashTarget.generated name generatingRule ∈ targets.filterMap hashTargetOf →
        ∃ node, base.recipes.generated[name]? = some node ∧ node ∈ recipes := by
    intro name generatingRule hmem
    obtain ⟨node, hnode, hstandsFor⟩ := hbase.generated name generatingRule hmem
    obtain ⟨found, hfound, hfinished⟩ := hhashed _ hmem generatingRule rfl
    have hsame : StandsFor targets name found := .generated hmem ((hstands _ _).mp hfound)
    rw [hstandsFor.unique hnodup hsame] at hnode
    exact ⟨found, hnode, (hok.finished found).mpr hfinished⟩
  have htargets : ∀ label kind, kinds[label]? = some kind →
      Evaluable { base with recipes := { base.recipes with rules := recipes } :
        RecipeRecorder }.finish label kind := by
    intro label kind hkind
    obtain ⟨target, hmem, rfl, rfl⟩ := (hkinds label kind).mp hkind
    rw [Evaluable, hrules, hgenerated]
    cases target with
    | rule name =>
        obtain ⟨rule, hrule⟩ := findRule_of_mem hnodup hmem
        obtain ⟨found, hfound, hfinished⟩ := hhashed _ hmem name rfl
        have hsame := ((hstands name found).mp hfound).unique hnodup (.own hrule)
        rw [hsame] at hfinished
        exact Or.inl ⟨rfl, (hok.finished name).mpr hfinished⟩
    | generated name generatingRule =>
        exact Or.inr (Or.inl ⟨rfl, hnodes name generatingRule hmem⟩)
    | source name => exact Or.inr (Or.inr rfl)
  obtain ⟨seedHash, hseedHash⟩ := hbase.seedHash
  have hdecoded : decodeDigest (RecipeRecorder.finish
      { base with recipes := { base.recipes with rules := recipes } }).seedHash =
        (.ok seedHash : Result D) := by
    rw [hseed, hseedHash, decodeDigest_hexDigest]
  refine ⟨evaluate_succeeds (hversion.trans hbase.version) hdecoded ?_ htargets, ?_, ?_, ?_⟩
  · intro evaluation hevaluation htree hdigests
    constructor
    · intro key recipe hrecipe
      rw [hevaluation, hrules] at hrecipe
      obtain ⟨d, hd⟩ := hok.fixed key recipe hrecipe
      exact ⟨d, by rw [RuleRecipe.staticDigest, hd, decodeDigest_hexDigest]⟩
    · intro key recipe hrecipe label hlabel
      rw [hevaluation, hrules] at hrecipe
      rw [Evaluator.CanFeed, htree]
      apply (hsources key recipe hrecipe label hlabel).imp _ id
      rintro ⟨source, hsource, rfl⟩
      apply hdigests
      exact mem_sourceLabels ((hkinds _ _).mpr
        ⟨_, mem_hashTargets_source hsource, rfl, rfl⟩)
    · intro key recipe hrecipe
      rw [hevaluation, hrules] at hrecipe ⊢
      exact hdeps key recipe hrecipe
  · rw [hrules]
    exact hdeps
  · rw [hrules, hgenerated]
    exact hnodes
  · rw [hrules]
    exact hsources

/-- A misnamed dependency has no recipe, so the recipe that names it cannot be evaluated. -/
theorem not_misnamed_of_evaluates (hnodup : (names targets).Nodup) {base recorder : RecipeRecorder}
    {rules : Labels D}
    (hstands : ∀ key node, (rules.find key).rule = some node ↔ StandsFor targets key node)
    {context : HashContext D} (hnodes : ∀ name ∈ context.nodes, ∃ rule,
      findRule targets name = some rule) {state : HashState D}
    (hstate : Recorded context rules (Readable D targets tree) base [] state)
    (hrecorder : state.recorder = some recorder) {kinds : StringMap String}
    (hkinds : ∀ name rule, findRule targets name = some rule → kinds[name]? = some "Rule")
    {hashes : StringMap (TargetHash D)}
    (hevaluate : evaluate recorder.finish kinds tree = .ok hashes) :
    ¬ ∃ name dep, Misnamed context rules name dep := by
  rintro ⟨name, dep, hmisnamed⟩
  obtain ⟨recipes, hrecipes, hok⟩ := hstate.recorder
  rw [hrecorder] at hrecipes
  obtain rfl := Option.some.inj hrecipes
  obtain ⟨node, group, groupNode, hnode, -, -, hgroup, -, -, hne⟩ := id hmisnamed
  obtain ⟨rule, hrule⟩ := hnodes name (mem_of_getElem? hnode)
  obtain ⟨recipe, hrecipe, hdeps⟩ := deps_of_evaluate hevaluate (hkinds name rule hrule)
  rw [RecipeRecorder.finish_rules] at hrecipe hdeps
  have hdep : dep ∈ recipes := hdeps dep (hok.misnamed name recipe hrecipe dep hmisnamed)
  obtain ⟨depRule, hdepRule⟩ := hnodes dep (hok.nodes dep ((hok.finished dep).mp hdep))
  exact hne (((hstands dep group).mp hgroup).unique hnodup (.own hdepRule))

/-- A run in partial-graph mode over plain names can evaluate its own recipes exactly when no
rule's visibility names a generated file that stands for a package group. -/
theorem ownRecipes_evaluate_iff (hnodup : (names targets).Nodup)
    (hplain : ∀ name ∈ names targets, targetLabel name = name)
    (htree : options.partialTree = some tree) (hgroups : SharedGroups digests)
    (h : prepareTargets options targets digests environment = .ok prepared)
    {state : HashState D} {keyed : List (KeyedDigest D)} (hrun : prepared.run = .ok (state, keyed)) :
    ∃ recorder, state.recorder = some recorder ∧
      ((∃ hashes : StringMap (TargetHash D), evaluate recorder.finish
        (targetKinds (aggregateByLabel keyed options.trackDeps).hashes) tree = .ok hashes) ↔
          ¬ HidesGroup options targets) ∧
      (OwnRecipesOk D targets recorder.finish
        (targetKinds (aggregateByLabel keyed options.trackDeps).hashes) tree ↔
          ¬ HidesGroup options targets) := by
  obtain ⟨base, hbase, hstart, hstands⟩ := start_recorded hnodup hplain htree h
  obtain ⟨hstate, hhashed⟩ :=
    run_recorded (recordable_prepareTargets hnodup htree hgroups h) hstart _ hrun
  dsimp only at hstate hhashed
  obtain ⟨recorder, hrecorder⟩ : ∃ recorder, state.recorder = some recorder := by
    obtain ⟨recipes, hrecorder, -⟩ := hstate.recorder
    exact ⟨_, hrecorder⟩
  obtain ⟨hlabels, hdistinct⟩ := sortedTargets_labels targets
  have htargets : prepared.targets = sortedTargets (targets.filterMap hashTargetOf) := by
    obtain ⟨_, _, _, _, _, -, -, -, -, -, -, -, -, -, htargets⟩ := prepareTargets_ok h
    exact htargets
  have hkinds : ∀ label kind,
      (targetKinds (aggregateByLabel keyed options.trackDeps).hashes)[label]? = some kind ↔
        ∃ target ∈ targets.filterMap hashTargetOf, target.label = label ∧ target.kind = kind := by
    intro label kind
    have hkeyed := (run_fromDefinitions hnodup h hrun).2.imp fun _ _ h => And.intro h.1 h.2.1
    rw [(entries_of_plain hkeyed (hdistinct hnodup)
      (fun target htarget => hplain _ (hlabels target htarget)) options.trackDeps).2,
      ownKinds_eq_some_iff (hdistinct hnodup)]
    simp only [sortedTargets, List.mem_insertionSort]
  have hnodes : ∀ name ∈ prepared.context.nodes, ∃ rule, findRule targets name = some rule := by
    intro name hname
    obtain ⟨node, hnode⟩ :=
      Option.isSome_iff_exists.mp (Std.ExtTreeMap.mem_iff_isSome_getElem?.mp hname)
    rcases (start_nodes hnodup h name).dest with ⟨-, hnone⟩ | ⟨rule, _, hrule, -⟩
    · rw [hnone] at hnode
      cases hnode
    · exact ⟨rule, hrule⟩
  have hrule : ∀ name rule, findRule targets name = some rule →
      (targetKinds (aggregateByLabel keyed options.trackDeps).hashes)[name]? = some "Rule" := by
    intro name rule hrule
    have hmem := mem_sortedTargets_rule hnodup hrule
    rw [sortedTargets, List.mem_insertionSort] at hmem
    exact (hkinds name "Rule").mpr ⟨_, hmem, rfl, rfl⟩
  have hbad := misnamed_iff hnodup hplain h hstands
  have hgood : ¬ HidesGroup options targets → OwnRecipesOk D targets recorder.finish
      (targetKinds (aggregateByLabel keyed options.trackDeps).hashes) tree := by
    intro hnone
    apply ownRecipesOk_of_recorded hnodup hbase hstands hstate hrecorder _ (hbad.not.mpr hnone)
      hkinds
    intro target htarget
    apply hhashed
    rw [htargets, sortedTargets, List.mem_insertionSort]
    exact htarget
  have hevaluates : (∃ hashes : StringMap (TargetHash D), evaluate recorder.finish
      (targetKinds (aggregateByLabel keyed options.trackDeps).hashes) tree = .ok hashes) →
        ¬ HidesGroup options targets := by
    rintro ⟨hashes, hhashes⟩
    exact hbad.not.mp
      (not_misnamed_of_evaluates hnodup hstands hnodes hstate hrecorder hrule hhashes)
  exact ⟨recorder, hrecorder, ⟨hevaluates, fun hnone => (hgood hnone).evaluates⟩,
    fun hok => hevaluates hok.evaluates, hgood⟩

end Own

/-- A package group, a generated file that stands for it, and a rule that depends on itself
and on the group, with the given visibility. -/
def groupTargets (visibility : List String) : List Target :=
  [{ type := .rule, rule := some { name := "//p:g", ruleClass := "package_group" } },
   { type := .generatedFile, generatedFile := some ⟨"//p:o", "//p:g"⟩ },
   { type := .rule
     rule := some { name := "//p:r", ruleClass := "genrule", ruleInput := ["//p:r", "//p:o"]
                    attributes := [{ name := "visibility", stringListValue := visibility }] } }]

/-- The rule is a hub of an extension whose hidden sibling is the group. -/
def hubDigests : PreparedRules Preimage :=
  PreparedRules.extend SlotTable.empty
    [("//p:r", { definitionDigest := digest [], sharedInputs := some ⟨"e", ["//p:g"]⟩ })]

theorem sharedGroups_hubDigests : SharedGroups hubDigests := by
  have hgroup : ∀ name rule, hubDigests.find name = some rule → ∀ group,
      rule.sharedInputs = some group → group = ⟨"e", ["//p:g"]⟩ := by
    intro name rule hrule group hgroup
    rw [hubDigests, PreparedRules.extend, List.foldl_cons, List.foldl_nil,
      SlotTable.find_update] at hrule
    split_ifs at hrule
    · obtain rfl := Option.some.inj hrule
      exact (Option.some.inj hgroup).symm
    · rw [SlotTable.find_empty] at hrule
      cases hrule
  intro name name' rule rule' group group' hrule hrule' hgroup₁ hgroup₂ _
  rw [hgroup name rule hrule group hgroup₁, hgroup name' rule' hrule' group' hgroup₂]

/-- A rule whose visibility names the group itself hides nothing. -/
theorem not_hidesGroup_groupTargets : ¬ HidesGroup {} (groupTargets ["//p:g"]) := by
  rintro ⟨-, name, rule, label, node, group, hrule, hlabel, hnode, hne, -, -⟩
  have hvisible : ∀ rule ∈ (groupTargets ["//p:g"]).filterMap ruleOf,
      ∀ label ∈ visibilityPackageGroups rule, label = "//p:g" := by
    decide +kernel
  have hgroup : label = "//p:g" := hvisible rule (List.mem_of_find?_eq_some hrule) label hlabel
  have hown : StandsFor (groupTargets ["//p:g"]) label label := by
    rw [hgroup]
    exact @StandsFor.own (groupTargets ["//p:g"]) "//p:g"
      { name := "//p:g", ruleClass := "package_group" } (by decide +kernel)
  exact hne (hnode.unique (by decide) hown)

theorem ownRecipes_evaluate_hub : ∃ (prepared : Prepared Preimage) (state : HashState Preimage)
    (keyed : List (KeyedDigest Preimage)) (recorder : RecipeRecorder),
    prepareTargets (HashOptions.atTree {} (oneFileTree "1")) (groupTargets ["//p:g"]) hubDigests
      Environment.bare = .ok prepared ∧
    prepared.run = .ok (state, keyed) ∧ state.recorder = some recorder ∧
    OwnRecipesOk Preimage (groupTargets ["//p:g"]) recorder.finish
      (targetKinds (aggregateByLabel keyed false).hashes) (oneFileTree "1") := by
  have hruns : (do
      let prepared ← prepareTargets (HashOptions.atTree {} (oneFileTree "1"))
        (groupTargets ["//p:g"]) hubDigests Environment.bare
      let (state, _) ← prepared.run
      return state.recorder.isSome) = .ok true := by
    decide +kernel
  obtain ⟨prepared, hprepared, hruns⟩ := bind_eq_ok hruns
  obtain ⟨⟨state, keyed⟩, hrun, -⟩ := bind_eq_ok hruns
  obtain ⟨recorder, hrecorder, -, hiff⟩ := ownRecipes_evaluate_iff (by decide) (by decide) rfl
    sharedGroups_hubDigests hprepared hrun
  exact ⟨prepared, state, keyed, recorder, hprepared, hrun, hrecorder,
    hiff.mpr not_hidesGroup_groupTargets⟩

/-- A rule whose visibility names the group's generated file: the traversal succeeds, and its
recipes are rejected. -/
theorem ownRecipes_rejected :
    (names (groupTargets ["//p:o"])).Nodup ∧
    (∀ name ∈ names (groupTargets ["//p:o"]), targetLabel name = name) ∧
    ∃ (prepared : Prepared Preimage) (state : HashState Preimage)
      (keyed : List (KeyedDigest Preimage)) (recorder : RecipeRecorder),
      prepareTargets (HashOptions.atTree {} (oneFileTree "1")) (groupTargets ["//p:o"])
        SlotTable.empty Environment.bare = .ok prepared ∧
      prepared.run = .ok (state, keyed) ∧ state.recorder = some recorder ∧
      (evaluate recorder.finish (targetKinds (aggregateByLabel keyed false).hashes)
        (oneFileTree "1") : Result (StringMap (TargetHash Preimage))) =
          .error (.error "recipes hold no rule //p:o") := by
  have hruns : (do
      let prepared ← prepareTargets (HashOptions.atTree {} (oneFileTree "1"))
        (groupTargets ["//p:o"]) SlotTable.empty Environment.bare
      let (state, keyed) ← prepared.run
      let recorder ← okOr "no recorder" state.recorder
      match evaluate (D := Preimage) recorder.finish
          (targetKinds (aggregateByLabel keyed false).hashes) (oneFileTree "1") with
      | .ok _ => return none
      | .error failure => return some failure) =
        .ok (some (.error "recipes hold no rule //p:o")) := by
    decide +kernel
  obtain ⟨prepared, hprepared, hruns⟩ := bind_eq_ok hruns
  obtain ⟨⟨state, keyed⟩, hrun, hruns⟩ := bind_eq_ok hruns
  obtain ⟨recorder, hrecorder, hruns⟩ := bind_eq_ok hruns
  refine ⟨by decide, by decide, prepared, state, keyed, recorder, hprepared, hrun,
    okOr_eq_ok hrecorder, ?_⟩
  split at hruns
  · cases hruns
  · rename_i failure hfailure
    rw [hfailure]
    obtain rfl := Option.some.inj (Except.ok.inj hruns)
    rfl

end BazelDiff
