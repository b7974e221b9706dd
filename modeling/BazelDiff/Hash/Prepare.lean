/-
# From records to related traversals

The stages between the query result and the traversal, for two generations at once:
folding an isolated root, preparing inputs, aliasing generated files and recording
loading inputs all keep two related graphs related, and related graphs start related
traversals.
-/

import BazelDiff.Hash.Lockstep

namespace BazelDiff

open Text HashFunction Outcome

variable {D : Type} {P Q : Prop}

/-! ## Related graphs -/

/-- Two nodes of the same rule, up to the attributes nothing reads any more. -/
structure RawNodeRel (Q : Prop) (n₁ n₂ : RuleNode D) : Prop where
  name : n₁.rule.name = n₂.rule.name
  ruleClass : n₁.rule.ruleClass = n₂.rule.ruleClass
  definition : n₁.prepared.definitionDigest = n₂.prepared.definitionDigest
  shared : n₁.prepared.sharedInputs = n₂.prepared.sharedInputs
  stack : n₁.rule.instantiationStack = n₂.rule.instantiationStack
  tags : ruleTags n₁.rule = ruleTags n₂.rule
  visibility : visibilityPackageGroups n₁.rule = visibilityPackageGroups n₂.rule
  ruleInput : n₁.rule.ruleInput = n₂.rule.ruleInput
  configured : n₁.rule.configuredRuleInput = n₂.rule.configuredRuleInput
  positions : n₁.inputPositions.isSome = n₂.inputPositions.isSome
  loading : AgreeIf Q n₁.prepared.loadingInputs n₂.prepared.loadingInputs

theorem RawNodeRel.refl (n : RuleNode D) : RawNodeRel Q n n :=
  ⟨rfl, rfl, rfl, rfl, rfl, rfl, rfl, rfl, rfl, rfl, AgreeIf.refl _⟩

structure GraphRel (P Q : Prop) (g₁ g₂ : Graph D) : Prop where
  rules : ∀ key, SlotRel P (g₁.rules.find key) (g₂.rules.find key)
  nodes : Pointwise (RawNodeRel Q) g₁.nodes g₂.nodes

/-- The positions of a node are those of the labels of its inputs. -/
def Graph.PositionsOk (graph : Graph D) : Prop :=
  ∀ ⦃name : String⦄ ⦃node : RuleNode D⦄ ⦃ids : List (Option Nat)⦄,
    graph.nodes[name]? = some node → node.inputPositions = some ids →
    ids = node.rule.ruleInput.map fun key => graph.rules.ids[targetLabel key]?

/-- No node has positions yet. -/
def Graph.Unprepared (graph : Graph D) : Prop :=
  ∀ ⦃name : String⦄ ⦃node : RuleNode D⦄, graph.nodes[name]? = some node →
    node.inputPositions = none

theorem Graph.Unprepared.positionsOk {graph : Graph D} (h : graph.Unprepared) :
    graph.PositionsOk := by
  intro name node ids hnode hids
  rw [h hnode] at hids
  cases hids

variable [HashFunction D]

theorem graphRel_takeIn {targets₁ targets₂ : List Target} (h₁ : (names targets₁).Nodup)
    (h₂ : (names targets₂).Nodup) {digests₁ digests₂ : PreparedRules D}
    {recorder₁ recorder₂ : Option RecipeRecorder} {e₁ e₂ : Environment D} {o₁ o₂ : HashOptions}
    {sources₁ sources₂ : List (String × D)} (hn₁ : (sources₁.map (·.1)).Nodup)
    (hn₂ : (sources₂.map (·.1)).Nodup)
    (hrules : ∀ name, Option.Rel (fun r₁ r₂ =>
      RawNodeRel Q (nodeOf digests₁ e₁ o₁ r₁) (nodeOf digests₂ e₂ o₂ r₂))
      (findRule targets₁ name) (findRule targets₂ name))
    (hsources : ∀ name, Option.Rel (fun s₁ s₂ => AgreeIf P s₁.2 s₂.2)
      (sources₁.find? (·.1 = name)) (sources₂.find? (·.1 = name))) :
    GraphRel P Q ((takeIn targets₁ digests₁ recorder₁).graph e₁ o₁ sources₁)
      ((takeIn targets₂ digests₂ recorder₂).graph e₂ o₂ sources₂) := by
  obtain ⟨hnodes₁, hfind₁⟩ := graph_takeIn h₁ digests₁ recorder₁ e₁ o₁ hn₁
  obtain ⟨hnodes₂, hfind₂⟩ := graph_takeIn h₂ digests₂ recorder₂ e₂ o₂ hn₂
  refine ⟨fun name => ?_, fun name => ?_⟩
  · rw [hfind₁, hfind₂]
    refine ⟨?_, rfl, (hsources name).map fun _ _ h => h⟩
    exact (hrules name).map_const name
  · rw [hnodes₁, hnodes₂]
    exact (hrules name).map fun _ _ h => h

omit [HashFunction D] in
/-- A record adds no positions. -/
theorem unprepared_add {intake : Intake D}
    (h : (Graph.mk intake.rules intake.nodes).Unprepared) (target : Target) :
    (Graph.mk (intake.add target).rules (intake.add target).nodes).Unprepared := by
  intro name node hnode
  rw [Intake.add] at hnode
  split at hnode
  · cases hrule : target.rule with
    | none =>
        rw [hrule] at hnode
        exact h hnode
    | some rule =>
        rw [hrule, Option.map_some, Option.getD_some, Intake.addRule] at hnode
        dsimp only at hnode
        split at hnode
        · rw [Std.ExtTreeMap.getElem?_insert] at hnode
          split_ifs at hnode
          · obtain rfl := Option.some.inj hnode
            rfl
          · exact h hnode
        · exact h hnode
  · cases hfile : target.generatedFile with
    | none =>
        rw [hfile] at hnode
        exact h hnode
    | some file =>
        rw [hfile] at hnode
        exact h hnode
  · cases hsource : target.sourceFile with
    | none =>
        rw [hsource] at hnode
        exact h hnode
    | some source =>
        rw [hsource] at hnode
        exact h hnode
  · exact h hnode

theorem unprepared_takeIn (targets : List Target) (digests : PreparedRules D)
    (recorder : Option RecipeRecorder) (environment : Environment D) (options : HashOptions)
    (sources : List (String × D)) :
    ((takeIn targets digests recorder).graph environment options sources).Unprepared := by
  have hintake : (Graph.mk (takeIn targets digests recorder).rules
      (takeIn targets digests recorder).nodes).Unprepared := by
    rw [takeIn]
    refine List.foldlRecOn (motive := fun intake : Intake D =>
      (Graph.mk intake.rules intake.nodes).Unprepared) targets Intake.add ?_
      fun intake h target _ => unprepared_add h target
    intro name node hnode
    simp at hnode
  rw [Intake.graph]
  refine List.foldlRecOn _ _ ?_ ?_
  · refine List.foldlRecOn sources _ hintake ?_
    intro graph h source _ name node hnode
    exact h hnode
  · intro graph h rule _ name node hnode
    rw [Graph.addDecoded] at hnode
    dsimp only at hnode
    rw [Std.ExtTreeMap.getElem?_insert] at hnode
    split_ifs at hnode
    · obtain rfl := Option.some.inj hnode
      rfl
    · exact h hnode

/-! ## The isolated root -/

/-- What folding the isolated root leaves alone. -/
theorem foldIsolatedRoot_ok {graph graph' : Graph D} {environment : Environment D}
    {options : HashOptions} (h : graph.foldIsolatedRoot environment options = .ok graph') :
    graph'.rules = graph.rules ∧ (graph.Unprepared → graph'.Unprepared) := by
  rw [Graph.foldIsolatedRoot] at h
  dsimp only at h
  split_ifs at h with hempty
  · cases h
    exact ⟨rfl, id⟩
  · split at h
    · cases h
    · obtain ⟨⟨key, hub⟩, hhub, h⟩ := bind_eq_ok h
      obtain ⟨inputs, -, h⟩ := bind_eq_ok h
      cases h
      refine ⟨rfl, fun hunprepared name node hnode => ?_⟩
      rw [Std.ExtTreeMap.getElem?_insert] at hnode
      split_ifs at hnode with hkey
      · obtain rfl := Option.some.inj hnode
        have hlookup : ∃ k, (graph.rules.find _).rule = some k ∧
            (graph.nodes[k]?).map (k, ·) = some (key, hub) :=
          Option.bind_eq_some_iff.mp (okOr_eq_ok hhub)
        obtain ⟨k, -, hk⟩ := hlookup
        obtain ⟨found, hfound, heq⟩ := Option.map_eq_some_iff.mp hk
        obtain ⟨rfl, rfl⟩ := Prod.mk.inj heq
        have hnone := hunprepared hfound
        exact hnone
      · exact hunprepared hnode

/-- The node with another definition. -/
def RuleNode.redefine (d : D) (node : RuleNode D) : RuleNode D :=
  { node with prepared := { node.prepared with definitionDigest := d } }

/-- Folding an isolated root touches definitions only. -/
theorem foldIsolatedRoot_redefine {graph graph' : Graph D} {environment : Environment D}
    {options : HashOptions} (h : graph.foldIsolatedRoot environment options = .ok graph')
    (d : D)
    (name : String) :
    (graph'.nodes[name]?).map (·.redefine d) = (graph.nodes[name]?).map (·.redefine d) := by
  rw [Graph.foldIsolatedRoot] at h
  dsimp only at h
  split_ifs at h with hempty
  · cases h
    rfl
  · split at h
    · cases h
    · obtain ⟨⟨key, hub⟩, hhub, h⟩ := bind_eq_ok h
      obtain ⟨inputs, -, h⟩ := bind_eq_ok h
      cases h
      obtain ⟨k, -, hfound⟩ := Option.bind_eq_some_iff.mp (okOr_eq_ok hhub)
      obtain ⟨found, hfind, heq⟩ := Option.map_eq_some_iff.mp hfound
      obtain ⟨rfl, rfl⟩ := Prod.mk.inj heq
      dsimp only
      rw [Std.ExtTreeMap.getElem?_insert]
      split_ifs with hkey
      · obtain rfl := Std.LawfulEqOrd.eq_of_compare hkey
        rw [hfind]
        rfl
      · rfl

/-- Folding the isolated root keeps the rules. -/
theorem foldIsolatedRoot_rule {graph graph' : Graph D} {environment : Environment D}
    {options : HashOptions} (h : graph.foldIsolatedRoot environment options = .ok graph')
    (name : String) : (graph'.nodes[name]?).map (·.rule) = (graph.nodes[name]?).map (·.rule) := by
  have hmap := congrArg (Option.map (·.rule)) (foldIsolatedRoot_redefine h (digest []) name)
  rwa [Option.map_map, Option.map_map] at hmap

/-- Without scoped repositories there is nothing to fold. -/
theorem foldIsolatedRoot_of_isEmpty (graph : Graph D) {environment : Environment D}
    (options : HashOptions) (h : environment.resolver.scopedSources.repositories.isEmpty = true) :
    graph.foldIsolatedRoot environment options = .ok graph := by
  rw [Graph.foldIsolatedRoot]
  dsimp only
  rw [if_pos h]
  rfl

omit [HashFunction D] in
/-- The labels and digests of the scoped sources are the same in graphs that agree. -/
theorem scopedSources_related (hP : P) {g₁ g₂ : Graph D} (h : GraphRel P Q g₁ g₂)
    (repositories : StringSet) :
    g₁.scopedSourceLabels repositories = g₂.scopedSourceLabels repositories ∧
      ∀ label, (g₁.rules.find label).source = (g₂.rules.find label).source := by
  have hsource : ∀ label, (g₁.rules.find label).source = (g₂.rules.find label).source := by
    intro label
    rcases (h.rules label).source.dest with ⟨h₁, h₂⟩ | ⟨d₁, d₂, h₁, h₂, hd⟩
    · rw [h₁, h₂]
    · rw [h₁, h₂, hd hP]
  refine ⟨?_, hsource⟩
  rw [Graph.scopedSourceLabels, Graph.scopedSourceLabels]
  congr 1
  exact SlotTable.keysWith_congr rfl rfl fun label => by rw [hsource]

/-- The isolated root is folded alike in graphs that agree. -/
theorem foldIsolatedRoot_related (hP : P) {g₁ g₂ : Graph D} (h : GraphRel P Q g₁ g₂)
    (environment : Environment D) (options : HashOptions) :
    Related (GraphRel P Q) (g₁.foldIsolatedRoot environment options)
      (g₂.foldIsolatedRoot environment options) := by
  obtain ⟨hlabels, hsource⟩ :=
    scopedSources_related hP h environment.resolver.scopedSources.repositories
  rw [Graph.foldIsolatedRoot, Graph.foldIsolatedRoot]
  dsimp only
  rw [hlabels]
  simp only [hsource]
  split_ifs
  · exact .ok h
  · cases options.bazel.isolatedDependencyRoot with
    | none => exact .error _
    | some root =>
        dsimp only
        refine Related.bind (R := fun a b => a.1 = b.1 ∧ RawNodeRel Q a.2 b.2) ?_ ?_
        · rw [(h.rules _).rule]
          cases (g₂.rules.find ("//external:" ++ trimStart '@' root)).rule with
          | none => exact .error _
          | some key =>
              simp only [Option.bind_some]
              rcases (h.nodes key).dest with ⟨h₁, h₂⟩ | ⟨n₁, n₂, h₁, h₂, hn⟩
              · rw [h₁, h₂]
                exact .error _
              · rw [h₁, h₂]
                exact .ok ⟨rfl, hn⟩
        · rintro ⟨key, n₁⟩ ⟨key', n₂⟩ ⟨hkey, hn⟩
          obtain rfl : key = key' := hkey
          refine Related.bind (Related.refl (fun _ => rfl) _) fun inputs inputs' hinputs => ?_
          obtain rfl : inputs = inputs' := hinputs
          refine .ok ⟨h.rules, ?_⟩
          dsimp only at hn ⊢
          rw [hn.definition]
          exact h.nodes.insert key { hn with definition := rfl }

theorem foldIsolatedRoot_congr (graph : Graph D) {e₁ e₂ : Environment D} {o₁ o₂ : HashOptions}
    (hbazel : o₁.bazel = o₂.bazel) (hresolver : e₁.resolver = e₂.resolver)
    (hdisk : e₁.disk = e₂.disk) :
    graph.foldIsolatedRoot e₁ o₁ = graph.foldIsolatedRoot e₂ o₂ := by
  rw [Graph.foldIsolatedRoot, Graph.foldIsolatedRoot, hbazel, hresolver, hdisk]

/-! ## Prepared inputs -/

omit [HashFunction D] in
theorem prepareInputs_related {g₁ g₂ : Graph D} (h : GraphRel P Q g₁ g₂) (fine : StringSet)
    (repoNodes : StringMap String) :
    GraphRel P Q (g₁.prepareInputs fine repoNodes) (g₂.prepareInputs fine repoNodes) := by
  refine ⟨h.rules, fun name => ?_⟩
  rw [Graph.prepareInputs, Graph.prepareInputs]
  dsimp only
  rw [Std.ExtTreeMap.getElem?_map, Std.ExtTreeMap.getElem?_map]
  refine (h.nodes name).map fun n₁ n₂ hn => ?_
  have hinput := hn.ruleInput
  refine { hn with tags := hn.tags, visibility := hn.visibility, ruleInput := ?_, positions := rfl }
  dsimp only
  rw [hinput]

omit [HashFunction D] in
theorem positionsOk_prepareInputs (graph : Graph D) (fine : StringSet)
    (repoNodes : StringMap String) : (graph.prepareInputs fine repoNodes).PositionsOk := by
  intro name node ids hnode hids
  rw [Graph.prepareInputs] at hnode ⊢
  dsimp only at hnode ⊢
  rw [Std.ExtTreeMap.getElem?_map] at hnode
  obtain ⟨original, -, rfl⟩ := Option.map_eq_some_iff.mp hnode
  exact (Option.some.inj hids).symm

omit [HashFunction D] in
theorem positionsOk_prepare {graph : Graph D} (h : graph.Unprepared) (environment : Environment D)
    (options : HashOptions) (ready : Bool) :
    (graph.prepare environment options ready).PositionsOk := by
  rw [Graph.prepare]
  split_ifs
  · exact positionsOk_prepareInputs graph _ _
  · exact h.positionsOk

omit [HashFunction D] in
theorem prepare_rules (graph : Graph D) (environment : Environment D) (options : HashOptions)
    (ready : Bool) : (graph.prepare environment options ready).rules = graph.rules := by
  rw [Graph.prepare]
  split_ifs <;> rfl

omit [HashFunction D] in
theorem prepare_related {g₁ g₂ : Graph D} (h : GraphRel P Q g₁ g₂) {e₁ e₂ : Environment D}
    {o₁ o₂ : HashOptions} (hbazel : o₁.bazel = o₂.bazel) (hresolver : e₁.resolver = e₂.resolver)
    (ready : Bool) : GraphRel P Q (g₁.prepare e₁ o₁ ready) (g₂.prepare e₂ o₂ ready) := by
  rw [Graph.prepare, Graph.prepare, hbazel, hresolver]
  split_ifs
  · exact prepareInputs_related h _ _
  · exact h

omit [HashFunction D] in
/-- Preparing inputs keeps the stacks. -/
theorem prepare_stack (graph : Graph D) (environment : Environment D) (options : HashOptions)
    (ready : Bool) (name : String) :
    ((graph.prepare environment options ready).nodes[name]?).map (·.rule.instantiationStack) =
      (graph.nodes[name]?).map (·.rule.instantiationStack) := by
  rw [Graph.prepare]
  split_ifs
  · rw [Graph.prepareInputs]
    dsimp only
    rw [Std.ExtTreeMap.getElem?_map, Option.map_map]
    rfl
  · rfl

/-- The stacks of a graph's rules stay those of the records. -/
theorem stack_prepared {graph graph' : Graph D} {environment : Environment D}
    {options : HashOptions} (h : graph.foldIsolatedRoot environment options = .ok graph')
    (ready : Bool) {name : String} {node : RuleNode D}
    (hnode : (graph'.prepare environment options ready).nodes[name]? = some node) :
    ∃ original, graph.nodes[name]? = some original ∧
      node.rule.instantiationStack = original.rule.instantiationStack := by
  have hstack := prepare_stack graph' environment options ready name
  have hrule := congrArg (Option.map (·.instantiationStack)) (foldIsolatedRoot_rule h name)
  rw [Option.map_map, Option.map_map] at hrule
  rw [hnode, Option.map_some] at hstack
  obtain ⟨original, horiginal, heq⟩ := Option.map_eq_some_iff.mp ((hstack.trans hrule).symm)
  exact ⟨original, horiginal, heq.symm⟩

/-! ## Aliases -/

structure AliasRel (P Q : Prop) (a₁ a₂ : Aliasing D) : Prop where
  rules : ∀ key, SlotRel P (a₁.rules.find key) (a₂.rules.find key)
  built : a₁.labelInstances = a₂.labelInstances
  recorder : Option.Rel (RecorderRel Q) a₁.recorder a₂.recorder

omit [HashFunction D] in
theorem ruleKeys_related {l₁ l₂ : Labels D} (h : ∀ key, SlotRel P (l₁.find key) (l₂.find key)) :
    l₁.ruleKeys = l₂.ruleKeys :=
  SlotTable.keysWith_congr rfl rfl fun key => by rw [(h key).rule]

omit [HashFunction D] in
theorem generatingNode_related {a₁ a₂ : Aliasing D} (h : AliasRel P Q a₁ a₂)
    (generatingRule : String) :
    AliasRel P Q (a₁.generatingNode generatingRule).1 (a₂.generatingNode generatingRule).1 ∧
      (a₁.generatingNode generatingRule).2 = (a₂.generatingNode generatingRule).2 := by
  rw [Aliasing.generatingNode, Aliasing.generatingNode, (h.rules generatingRule).rule]
  cases (a₂.rules.find generatingRule).rule with
  | some node => exact ⟨h, rfl⟩
  | none =>
      dsimp only
      rw [h.built, ruleKeys_related h.rules]
      refine ⟨{ h with built := rfl }, ?_⟩
      congr 1
      funext key
      exact (h.rules key).rule

omit [HashFunction D] in
theorem RecorderRel.recordGenerated {r₁ r₂ : RecipeRecorder} (h : RecorderRel Q r₁ r₂)
    (label generatingRule : String) :
    RecorderRel Q (r₁.recordGenerated label generatingRule)
      (r₂.recordGenerated label generatingRule) where
  subincludes := h.subincludes
  recipes := congrArg (fun recipes : PartialRecipes =>
    { recipes with generated := recipes.generated.insert label generatingRule }) h.recipes
  loading := h.loading

omit [HashFunction D] in
theorem addTarget_related {a₁ a₂ : Aliasing D} (h : AliasRel P Q a₁ a₂) (target : HashTarget) :
    Related (AliasRel P Q) (a₁.addTarget target) (a₂.addTarget target) := by
  cases target with
  | rule name => exact .ok h
  | source name => exact .ok h
  | generated name generatingRule =>
      obtain ⟨hrel, hnode⟩ := generatingNode_related h generatingRule
      rw [Aliasing.addTarget, Aliasing.addTarget, Aliasing.add, Aliasing.add]
      dsimp only
      rw [hnode]
      refine Related.bind (Related.refl (fun _ => rfl) _) fun node node' heq => ?_
      obtain rfl : node = node' := heq
      refine .ok ⟨fun key => ?_, by rw [hrel.built],
        hrel.recorder.map fun _ _ hr => hr.recordGenerated name node⟩
      have hslot := hrel.rules name
      rw [SlotTable.find_update, SlotTable.find_update]
      split_ifs
      · refine ⟨rfl, ?_, hslot.source⟩
        simp only [Aliasing.replaceRule, hslot.rule, hslot.replaced]
      · exact hrel.rules key

omit [HashFunction D] in
/-- Generated files are aliased alike in tables that agree. -/
theorem aliasTargets_related {l₁ l₂ : Labels D}
    (h : ∀ key, SlotRel P (l₁.find key) (l₂.find key)) {r₁ r₂ : Option RecipeRecorder}
    (hr : Option.Rel (RecorderRel Q) r₁ r₂) (targets : List HashTarget) :
    Related (AliasRel P Q) (aliasTargets l₁ r₁ targets) (aliasTargets l₂ r₂ targets) :=
  Related.foldlM (fun target _ _ _ hab => addTarget_related hab target) ⟨h, rfl, hr⟩

omit [HashFunction D] in
/-- Aliases do not move the labels that are in the table. -/
theorem aliasTargets_ids (rules : Labels D) (recorder : Option RecipeRecorder)
    (targets : List HashTarget) :
    Ensures (fun aliasing : Aliasing D => ∀ (key : String) (id : Nat),
      rules.ids[key]? = some id → aliasing.rules.ids[key]? = some id)
      (aliasTargets rules recorder targets) := by
  refine Ensures.foldlM (fun target _ aliasing h => ?_) fun _ _ hid => hid
  cases target with
  | rule name => exact Ensures.ok h
  | source name => exact Ensures.ok h
  | generated name generatingRule =>
      have hrules : (aliasing.generatingNode generatingRule).1.rules = aliasing.rules := by
        rw [Aliasing.generatingNode]
        split <;> rfl
      rw [Aliasing.addTarget, Aliasing.add]
      refine Ensures.bind (P := fun _ => True) (fun _ _ => trivial) fun node _ => ?_
      refine Ensures.pure fun key id hid => ?_
      have hupdate := aliasing.rules.ids_update (h key id hid) name
        (Aliasing.replaceRule name node)
      rw [← hrules] at hupdate
      exact hupdate

/-! ## Loading inputs -/

omit [HashFunction D] in
theorem mem_recordLoading (rules : Labels D) (nodes : StringMap (RuleNode D))
    (markers : List String) (recorder : RecipeRecorder) (path : String) :
    path ∈ (recordLoading rules nodes markers recorder).recipes.loadInputs ↔
      path ∈ recorder.recipes.loadInputs ∨
      (∃ key name node, (rules.find key).rule = some name ∧ nodes[name]? = some node ∧
        path ∈ node.prepared.loadingInputs) ∨
      path ∈ markerLoadingInputs markers := by
  have hfold : ∀ (found : List (RuleNode D)) (recorder : RecipeRecorder),
      path ∈ (found.foldl (fun recorder node =>
        recorder.recordLoadingInputs node.prepared.loadingInputs) recorder).recipes.loadInputs ↔
      path ∈ recorder.recipes.loadInputs ∨ ∃ node ∈ found, path ∈ node.prepared.loadingInputs := by
    intro found
    induction found with
    | nil => simp
    | cons node rest ih =>
        intro recorder
        rw [List.foldl_cons, ih, RecipeRecorder.mem_recordLoadingInputs]
        simp only [List.mem_cons, exists_eq_or_imp]
        tauto
  have hfound : ∀ node : RuleNode D, node ∈ (rules.ruleKeys.filterMap fun key =>
      (rules.find key).rule.bind (nodes[·]?)) ↔
      ∃ key name, (rules.find key).rule = some name ∧ nodes[name]? = some node := by
    intro node
    simp only [List.mem_filterMap, Option.bind_eq_some_iff]
    constructor
    · rintro ⟨key, -, name, hname, hnode⟩
      exact ⟨key, name, hname, hnode⟩
    · rintro ⟨key, name, hname, hnode⟩
      have hkey : key ∈ rules.ruleKeys :=
        (SlotTable.mem_keysWith rules (p := fun slot => slot.rule.isSome) rfl).mpr
          (by rw [hname]; rfl)
      exact ⟨key, hkey, name, hname, hnode⟩
  rw [recordLoading, RecipeRecorder.mem_recordLoadingInputs, hfold]
  simp only [hfound]
  constructor
  · rintro ((h | ⟨node, ⟨key, name, hname, hnode⟩, hpath⟩) | h)
    · exact Or.inl h
    · exact Or.inr (Or.inl ⟨key, name, node, hname, hnode, hpath⟩)
    · exact Or.inr (Or.inr h)
  · rintro (h | ⟨key, name, node, hname, hnode, hpath⟩ | h)
    · exact Or.inl (Or.inl h)
    · exact Or.inl (Or.inr ⟨node, ⟨key, name, hname, hnode⟩, hpath⟩)
    · exact Or.inr h

omit [HashFunction D] in
theorem recordLoading_rest (rules : Labels D) (nodes : StringMap (RuleNode D))
    (markers : List String) (recorder : RecipeRecorder) :
    (recordLoading rules nodes markers recorder).subincludes = recorder.subincludes ∧
      (recordLoading rules nodes markers recorder).recipes.withoutLoading =
        recorder.recipes.withoutLoading := by
  have hfold : ∀ (found : List (RuleNode D)) (recorder : RecipeRecorder),
      (found.foldl (fun recorder node =>
        recorder.recordLoadingInputs node.prepared.loadingInputs) recorder).subincludes =
          recorder.subincludes ∧
      (found.foldl (fun recorder node =>
        recorder.recordLoadingInputs node.prepared.loadingInputs) recorder).recipes.withoutLoading =
          recorder.recipes.withoutLoading := by
    intro found
    induction found with
    | nil => exact fun _ => ⟨rfl, rfl⟩
    | cons node rest ih => exact fun recorder => ih _
  exact hfold _ recorder

omit [HashFunction D] in
/-- Loading inputs are recorded alike from graphs that agree. -/
theorem recordLoading_related {l₁ l₂ : Labels D}
    (h : ∀ key, SlotRel P (l₁.find key) (l₂.find key)) {nodes₁ nodes₂ : StringMap (RuleNode D)}
    (hnodes : Q → Pointwise (RawNodeRel Q) nodes₁ nodes₂) {markers₁ markers₂ : List String}
    (hmarkers : Q → ∀ path,
      path ∈ markerLoadingInputs markers₁ ↔ path ∈ markerLoadingInputs markers₂)
    {r₁ r₂ : RecipeRecorder} (hr : RecorderRel Q r₁ r₂) :
    RecorderRel Q (recordLoading l₁ nodes₁ markers₁ r₁) (recordLoading l₂ nodes₂ markers₂ r₂) := by
  obtain ⟨hsub₁, hrest₁⟩ := recordLoading_rest l₁ nodes₁ markers₁ r₁
  obtain ⟨hsub₂, hrest₂⟩ := recordLoading_rest l₂ nodes₂ markers₂ r₂
  refine ⟨by rw [hsub₁, hsub₂]; exact hr.subincludes, by rw [hrest₁, hrest₂, hr.recipes], fun hQ => ?_⟩
  refine Std.ExtTreeSet.ext_mem fun path => ?_
  rw [mem_recordLoading, mem_recordLoading, hr.loading hQ, hmarkers hQ path]
  have hfound : (∃ key name node, (l₁.find key).rule = some name ∧ nodes₁[name]? = some node ∧
      path ∈ node.prepared.loadingInputs) ↔
      ∃ key name node, (l₂.find key).rule = some name ∧ nodes₂[name]? = some node ∧
        path ∈ node.prepared.loadingInputs := by
    refine exists_congr fun key => exists_congr fun name => ?_
    rw [(h key).rule]
    rcases (hnodes hQ name).dest with ⟨h₁, h₂⟩ | ⟨n₁, n₂, h₁, h₂, hn⟩
    · simp [h₁, h₂]
    · simp [h₁, h₂, hn.loading hQ]
  rw [hfound]

/-! ## The start of the traversal -/

/-- The settings of two runs whose traversals can be compared. -/
structure SettingRel (P Q : Prop) (o₁ o₂ : HashOptions) (e₁ e₂ : Environment D) : Prop where
  bazel : o₁.bazel = o₂.bazel
  ignored : o₁.ignoredAttributes = o₂.ignoredAttributes
  trackDeps : o₁.trackDeps = o₂.trackDeps
  tags : o₁.alwaysAffectedTags = o₂.alwaysAffectedTags
  affected : o₁.alwaysAffectedTags.isEmpty = true ∨ e₁.alwaysAffectedSeed = e₂.alwaysAffectedSeed
  resolver : e₁.resolver = e₂.resolver
  soft : ∀ label, Related (Option.Rel (AgreeIf P))
    ((e₁.sourceHasher o₁).softDigest label : Result (Option D))
    ((e₂.sourceHasher o₂).softDigest label)
  markers : Q → ∀ path,
    path ∈ markerLoadingInputs e₁.markers ↔ path ∈ markerLoadingInputs e₂.markers

/-- The `.bzl` files of a rule's stack are the same in two runs. -/
def StackRel (o₁ o₂ : HashOptions) (e₁ e₂ : Environment D) (rule : Rule) : Prop :=
  ∀ path ∈ HashContext.stackFiles rule,
    ((e₁.sourceHasher o₁).softDigest ("//" ++ path) : Result (Option D)) =
      (e₂.sourceHasher o₂).softDigest ("//" ++ path)

theorem StackRel.congr {o₁ o₂ : HashOptions} {e₁ e₂ : Environment D} {rule rule' : Rule}
    (h : StackRel o₁ o₂ e₁ e₂ rule) (hstack : rule'.instantiationStack = rule.instantiationStack) :
    StackRel o₁ o₂ e₁ e₂ rule' := by
  have hfiles : HashContext.stackFiles rule' = HashContext.stackFiles rule := by
    rw [HashContext.stackFiles, HashContext.stackFiles, hstack]
  rw [StackRel, hfiles]
  exact h

/-- The context a run's traversal reads. -/
def runContext (options : HashOptions) (environment : Environment D) (seedHash : D)
    (packageSeeds : StringMap D) (nodes : StringMap (RuleNode D)) : HashContext D where
  options := options
  sourceHasher := environment.sourceHasher options
  seedHash := seedHash
  packageBzlSeeds := packageSeeds
  alwaysAffectedSeed := environment.alwaysAffectedSeed
  nodes := nodes

theorem mem_stackFiles {rule : Rule} {path : String} (h : path ∈ HashContext.stackFiles rule) :
    (hasSuffix ".bzl" path || hasSuffix ".scl" path) = true := by
  rw [HashContext.stackFiles, Std.ExtTreeSet.mem_toList, mem_foldl_insert] at h
  rcases h with h | h
  · simp at h
  · have hpath := (List.mem_filter.mp h).2
    simp only [Bool.and_eq_true] at hpath
    exact hpath.1.1.1.1

theorem RawNodeRel.node {o₁ o₂ : HashOptions} {e₁ e₂ : Environment D}
    (hset : SettingRel P Q o₁ o₂ e₁ e₂) {seedHash : D} {packageSeeds : StringMap D}
    {nodes₁ nodes₂ : StringMap (RuleNode D)} {n₁ n₂ : RuleNode D} (h : RawNodeRel Q n₁ n₂)
    (hstack : StackRel o₁ o₂ e₁ e₂ n₁.rule) :
    NodeRel (runContext o₁ e₁ seedHash packageSeeds nodes₁)
      (runContext o₂ e₂ seedHash packageSeeds nodes₂) n₁ n₂ where
  name := h.name
  ruleClass := h.ruleClass
  definition := h.definition
  shared := h.shared
  stack := h.stack
  affected := by
    rw [HashContext.isAlwaysAffected, HashContext.isAlwaysAffected, runContext, runContext]
    dsimp only
    rw [h.tags, hset.tags]
  seed haffected := by
    rcases hset.affected with hempty | hsame
    · simp [HashContext.isAlwaysAffected, runContext, hempty] at haffected
    · exact hsame
  extension := by
    rw [HashContext.extensionOf, HashContext.extensionOf, runContext, runContext]
    dsimp only [Environment.sourceHasher]
    rw [h.name, hset.bazel, hset.resolver]
  inputs := by
    rw [HashContext.inputsOf, HashContext.inputsOf, h.positions, h.ruleInput, runContext,
      runContext]
    dsimp only [Environment.sourceHasher]
    rw [hset.bazel, hset.resolver, ruleInputs, ruleInputs, h.configured, h.ruleInput]
  visibility := by
    rw [HashContext.visibilityOf, HashContext.visibilityOf, runContext, runContext]
    dsimp only
    rw [hset.ignored, h.visibility]
  bzl := hstack

theorem contextRel_runContext {o₁ o₂ : HashOptions} {e₁ e₂ : Environment D}
    (hset : SettingRel P Q o₁ o₂ e₁ e₂) (seedHash : D) (packageSeeds : StringMap D)
    {nodes₁ nodes₂ : StringMap (RuleNode D)} (h : Pointwise (RawNodeRel Q) nodes₁ nodes₂)
    (hstacks : ∀ {name : String} {node : RuleNode D}, nodes₁[name]? = some node →
      StackRel o₁ o₂ e₁ e₂ node.rule) :
    ContextRel P (runContext o₁ e₁ seedHash packageSeeds nodes₁)
      (runContext o₂ e₂ seedHash packageSeeds nodes₂) where
  trackDeps := hset.trackDeps
  seedHash := rfl
  packageBzlSeeds := rfl
  soft := hset.soft
  nodes name := by
    rw [runContext, runContext]
    rcases (h name).dest with ⟨hnone₁, hnone₂⟩ | ⟨n₁, n₂, hnode₁, hnode₂, hn⟩
    · rw [hnone₁, hnone₂]
      exact .none
    · rw [hnode₁, hnode₂]
      exact .some (hn.node hset (hstacks hnode₁))

omit [HashFunction D] in
/-- The positions of a prepared graph stay good when aliases are added. -/
theorem positionsOk_runContext {graph : Graph D} (h : graph.PositionsOk) {state : HashState D}
    (hids : ∀ (key : String) (id : Nat), graph.rules.ids[key]? = some id →
      state.rules.ids[key]? = some id) (options : HashOptions) (environment : Environment D)
    (seedHash : D) (packageSeeds : StringMap D) :
    (runContext options environment seedHash packageSeeds graph.nodes).PositionsOk state := by
  intro name node ids hnode hpositions i id hid
  rw [h hnode hpositions, List.getElem?_map] at hid
  obtain ⟨input, hinput, hslot⟩ := Option.map_eq_some_iff.mp hid
  exact ⟨input, hinput, hids _ _ hslot⟩

/-- The state a run's traversal starts in. -/
def startState (aliasing : Aliasing D) (recorder : Option RecipeRecorder) : HashState D where
  rules := aliasing.rules
  labelInstances := aliasing.labelInstances
  recorder := recorder

omit [HashFunction D] in
/-- Tables that agree start traversals from states that agree. -/
theorem stateRel_startState {c₁ c₂ : HashContext D} {a₁ a₂ : Aliasing D} (ha : AliasRel P Q a₁ a₂)
    {r₁ r₂ : Option RecipeRecorder} (hr : Option.Rel (RecorderRel Q) r₁ r₂)
    (h₁ : c₁.PositionsOk (startState a₁ r₁)) (h₂ : c₂.PositionsOk (startState a₂ r₂)) :
    StateRel P Q c₁ c₂ (startState a₁ r₁) (startState a₂ r₂) := by
  refine ⟨ha.rules, Pointwise.empty, ?_, Pointwise.empty, rfl, hr, h₁, h₂⟩
  rw [HashState.instances, HashState.instances, startState, startState]
  dsimp only
  rw [ha.built, ruleKeys_related ha.rules]

/-- The stacks of the graph of a query result are those of its records. -/
theorem stacks_takeIn {o₁ o₂ : HashOptions} {e₁ e₂ : Environment D} {targets : List Target}
    {digests : PreparedRules D} {recorder : Option RecipeRecorder} {sources : List (String × D)}
    (hnodup : (names targets).Nodup) (hn : (sources.map (·.1)).Nodup)
    (hstacks : ∀ rule ∈ targets.filterMap ruleOf, StackRel o₁ o₂ e₁ e₂ rule) {name : String}
    {node : RuleNode D}
    (hnode : ((takeIn targets digests recorder).graph e₁ o₁ sources).nodes[name]? = some node) :
    StackRel o₁ o₂ e₁ e₂ node.rule := by
  rw [(graph_takeIn hnodup digests recorder e₁ o₁ hn).1] at hnode
  obtain ⟨rule, hrule, rfl⟩ := Option.map_eq_some_iff.mp hnode
  refine (hstacks rule (List.mem_of_find?_eq_some hrule)).congr ?_
  rw [nodeOf]
  cases digests.find rule.name <;> rfl

/-- Related graphs start related traversals. -/
theorem prepareGraph_related {o₁ o₂ : HashOptions} {e₁ e₂ : Environment D}
    (hset : SettingRel P Q o₁ o₂ e₁ e₂) (seedHash : D) (packageSeeds : StringMap D)
    {i₁ i₂ : Intake D} {g₁ g₂ : Graph D} (h₁ : g₁.Unprepared) (h₂ : g₂.Unprepared)
    (hstacks : ∀ {name : String} {node : RuleNode D}, g₁.nodes[name]? = some node →
      StackRel o₁ o₂ e₁ e₂ node.rule)
    (hfold : Related (GraphRel P Q) (g₁.foldIsolatedRoot e₁ o₁) (g₂.foldIsolatedRoot e₂ o₂))
    (hready : mappingReady e₁ o₁ i₁.sourceTargets = mappingReady e₂ o₂ i₂.sourceTargets)
    (halias : Related (AliasRel P Q) (aliasTargets g₁.rules i₁.recorder i₁.hashTargets)
      (aliasTargets g₂.rules i₂.recorder i₂.hashTargets))
    (hsorted : sortedTargets i₁.hashTargets = sortedTargets i₂.hashTargets) :
    Related (PreparedRel P Q) (prepareGraph o₁ e₁ seedHash packageSeeds i₁ g₁)
      (prepareGraph o₂ e₂ seedHash packageSeeds i₂ g₂) := by
  rw [prepareGraph, prepareGraph]
  cases hf₁ : g₁.foldIsolatedRoot e₁ o₁ with
  | error failure =>
      rw [hf₁] at hfold
      cases hf₂ : g₂.foldIsolatedRoot e₂ o₂ with
      | error failure' =>
          rw [hf₂] at hfold
          cases hfold
          exact .error _
      | ok graph => rw [hf₂] at hfold; cases hfold
  | ok graph₁ =>
      obtain ⟨graph₂, hf₂, hgraph⟩ := hfold.ok_left hf₁
      obtain ⟨hrules₁, hkeep₁⟩ := foldIsolatedRoot_ok hf₁
      obtain ⟨hrules₂, hkeep₂⟩ := foldIsolatedRoot_ok hf₂
      have hprepared := prepare_related hgraph hset.bazel hset.resolver
        (mappingReady e₂ o₂ i₂.sourceTargets)
      have hpos₁ := positionsOk_prepare (hkeep₁ h₁) e₁ o₁
        (mappingReady e₂ o₂ i₂.sourceTargets)
      have hpos₂ := positionsOk_prepare (hkeep₂ h₂) e₂ o₂
        (mappingReady e₂ o₂ i₂.sourceTargets)
      have hids₁ := aliasTargets_ids g₁.rules i₁.recorder i₁.hashTargets
      have hids₂ := aliasTargets_ids g₂.rules i₂.recorder i₂.hashTargets
      rw [hf₂, hready]
      simp only [bind, Except.bind, prepare_rules, hrules₁, hrules₂]
      cases ha₁ : aliasTargets g₁.rules i₁.recorder i₁.hashTargets with
      | error failure =>
          rw [ha₁] at halias
          cases ha₂ : aliasTargets g₂.rules i₂.recorder i₂.hashTargets with
          | error failure' =>
              rw [ha₂] at halias
              cases halias
              exact .error _
          | ok aliasing => rw [ha₂] at halias; cases halias
      | ok a₁ =>
          obtain ⟨a₂, ha₂, ha⟩ := halias.ok_left ha₁
          rw [ha₂]
          have hread : ∀ {name : String} {node : RuleNode D},
              (graph₁.prepare e₁ o₁ (mappingReady e₂ o₂ i₂.sourceTargets)).nodes[name]? =
                some node → StackRel o₁ o₂ e₁ e₂ node.rule := by
            intro name node hnode
            obtain ⟨original, horiginal, hstack⟩ := stack_prepared hf₁ _ hnode
            exact (hstacks horiginal).congr hstack
          refine .ok ⟨contextRel_runContext hset seedHash packageSeeds hprepared.nodes hread, ?_,
            hsorted⟩
          refine stateRel_startState ha ?_ ?_ ?_
          · exact ha.recorder.map fun _ _ hr =>
              recordLoading_related ha.rules (fun _ => hprepared.nodes) hset.markers hr
          · refine positionsOk_runContext hpos₁ ?_ o₁ e₁ seedHash packageSeeds
            rw [prepare_rules, hrules₁]
            exact hids₁ a₁ ha₁
          · refine positionsOk_runContext hpos₂ ?_ o₂ e₂ seedHash packageSeeds
            rw [prepare_rules, hrules₂]
            exact hids₂ a₂ ha₂

/-! ## From the records to the start of the traversal -/

/-- The digests of sources come with their names, in order. -/
theorem digestSources_names (hasher : SourceHasher) (useCquery : Bool)
    (sources : List SourceTarget) :
    Ensures (fun digests : List (String × D) => digests.map (·.1) = sources.map (·.name))
      (digestSources hasher useCquery sources) := by
  induction sources with
  | nil => exact Ensures.ok rfl
  | cons source rest ih =>
      rw [digestSources, List.mapM_cons]
      refine Ensures.bind (P := fun digest : String × D => digest.1 = source.name) ?_ ?_
      · refine Ensures.bind (P := fun _ => True) (fun _ _ => trivial) fun d _ => ?_
        exact Ensures.pure rfl
      · intro digest hdigest
        refine Ensures.bind ih fun digests hdigests => Ensures.pure ?_
        rw [List.map_cons, List.map_cons, hdigest, hdigests]

theorem sourceTargets_nodup {targets : List Target} (h : (names targets).Nodup) :
    ((sourceTargets targets).map (·.name)).Nodup := by
  rw [sourceTargets, List.map_map]
  exact nodup_filterMap (fun _ _ => targetName_of_sourceOf) h

/-- Sources that agree, as lists of names and digests. -/
def SourcesRel (P : Prop) (sources₁ sources₂ : List (String × D)) : Prop :=
  List.Forall₂ (fun s₁ s₂ => s₁.1 = s₂.1 ∧ AgreeIf P s₁.2 s₂.2) sources₁ sources₂

omit [HashFunction D] in
theorem SourcesRel.find {sources₁ sources₂ : List (String × D)}
    (h : SourcesRel P sources₁ sources₂) (name : String) :
    Option.Rel (fun s₁ s₂ : String × D => AgreeIf P s₁.2 s₂.2)
      (sources₁.find? (·.1 = name)) (sources₂.find? (·.1 = name)) := by
  induction h with
  | nil => exact .none
  | @cons s₁ s₂ rest₁ rest₂ hs _ ih =>
      rw [List.find?_cons, List.find?_cons, hs.1]
      by_cases hname : s₂.1 = name
      · simpa [hname] using Option.Rel.some hs.2
      · simpa [hname] using ih

/-- What the records of two runs have in common. -/
structure RecordsRel (Q : Prop) (o₁ o₂ : HashOptions) (e₁ e₂ : Environment D)
    (digests₁ digests₂ : PreparedRules D) (targets₁ targets₂ : List Target) : Prop where
  nodup₁ : (names targets₁).Nodup
  nodup₂ : (names targets₂).Nodup
  hashTargets : targets₁.filterMap hashTargetOf = targets₂.filterMap hashTargetOf
  sources : targets₁.filterMap sourceOf = targets₂.filterMap sourceOf
  instantiation : hasInstantiationStacks targets₁ = hasInstantiationStacks targets₂
  rules : ∀ name, Option.Rel (fun r₁ r₂ =>
    RawNodeRel Q (nodeOf digests₁ e₁ o₁ r₁) (nodeOf digests₂ e₂ o₂ r₂))
    (findRule targets₁ name) (findRule targets₂ name)

theorem mappingReady_related {o₁ o₂ : HashOptions} {e₁ e₂ : Environment D}
    (hset : SettingRel P Q o₁ o₂ e₁ e₂) (sources : List SourceTarget) :
    mappingReady e₁ o₁ sources = mappingReady e₂ o₂ sources := by
  have hfine : (e₁.sourceHasher o₁).fineGrainedExternalRepos =
      (e₂.sourceHasher o₂).fineGrainedExternalRepos := by
    rw [Environment.sourceHasher, Environment.sourceHasher, hset.resolver, hset.bazel]
  rw [mappingReady, mappingReady, hset.resolver]
  simp only [SourceHasher.consultsMapping, hfine]

omit [HashFunction D] in
theorem RecorderRel.refl (recorder : RecipeRecorder) : RecorderRel Q recorder recorder :=
  ⟨RecipeRecorder.SameSubincludes.refl _, rfl, AgreeIf.refl _⟩

/-- Runs over the same records, in the same order, start related traversals. -/
theorem prepareTargets_related {o₁ o₂ : HashOptions} {e₁ e₂ : Environment D}
    (hset : SettingRel P Q o₁ o₂ e₁ e₂) {targets₁ targets₂ : List Target}
    {digests₁ digests₂ : PreparedRules D}
    (hrecords : RecordsRel Q o₁ o₂ e₁ e₂ digests₁ digests₂ targets₁ targets₂)
    (hstacks : ∀ rule ∈ targets₁.filterMap ruleOf, StackRel o₁ o₂ e₁ e₂ rule)
    (hmode : o₁.partialTree.isSome = o₂.partialTree.isSome)
    (hseed : (hashSeedFiles e₁.disk o₁.bazel.workspace o₁.seedFilepaths : Result D) =
      hashSeedFiles e₂.disk o₂.bazel.workspace o₂.seedFilepaths)
    (hbzl : bzlSeeds o₁ targets₁ e₁ = bzlSeeds o₂ targets₂ e₂)
    (hsources : Related (SourcesRel (D := D) P)
      (digestSources (e₁.sourceHasher o₁) o₁.bazel.useCquery (sourceTargets targets₁))
      (digestSources (e₂.sourceHasher o₂) o₂.bazel.useCquery (sourceTargets targets₂)))
    (hroot : e₁.resolver.scopedSources.repositories.isEmpty = true ∨
      (P ∧ e₁.disk = e₂.disk)) :
    Related (PreparedRel P Q) (prepareTargets o₁ targets₁ digests₁ e₁)
      (prepareTargets o₂ targets₂ digests₂ e₂) := by
  have hrecorder : ∀ seedHash : D,
      (takeIn targets₁ digests₁ (newRecorder o₁ targets₁ seedHash)).recorder =
        (takeIn targets₂ digests₂ (newRecorder o₂ targets₂ seedHash)).recorder := by
    intro seedHash
    rw [takeIn, takeIn, Intake.recorder_foldl, Intake.recorder_foldl, hrecords.sources]
    dsimp only
    rw [newRecorder, newRecorder, hmode, hrecords.instantiation]
  have hhashTargets : ∀ r₁ r₂, (takeIn targets₁ digests₁ r₁).hashTargets =
      (takeIn targets₂ digests₂ r₂).hashTargets := by
    intro r₁ r₂
    rw [takeIn, takeIn, Intake.hashTargets_foldl, Intake.hashTargets_foldl, hrecords.hashTargets]
  have htaken : ∀ (targets : List Target) (digests : PreparedRules D) r,
      (takeIn targets digests r).sourceTargets = sourceTargets targets := by
    intro targets digests r
    rw [takeIn, Intake.sourceTargets_foldl, List.nil_append]
  rw [prepareTargets, prepareTargets, hmode, hseed, hbzl, hset.bazel]
  by_cases hcquery : o₂.partialTree.isSome ∧ o₂.bazel.useCquery
  · rw [if_pos hcquery, if_pos hcquery]
    exact .error _
  · rw [if_neg hcquery, if_neg hcquery]
    refine Related.bind (Related.refl (fun _ => rfl) _) fun seedHash seedHash' heq => ?_
    obtain rfl : seedHash = seedHash' := heq
    refine Related.bind (Related.refl (fun _ => rfl) _) fun seeds seeds' heq => ?_
    obtain rfl : seeds = seeds' := heq
    dsimp only
    rw [htaken, htaken, ← hset.bazel]
    rw [← hset.bazel] at hsources
    have hnames : ∀ {targets : List Target} {hasher : SourceHasher}, (names targets).Nodup →
        Ensures (fun sources : List (String × D) => (sources.map (·.1)).Nodup)
          (digestSources hasher o₁.bazel.useCquery (sourceTargets targets)) := by
      intro targets hasher hnodup
      refine (digestSources_names hasher _ _).mono fun sources hsources => ?_
      rw [hsources]
      exact sourceTargets_nodup hnodup
    refine Related.bind (hsources.and_ensures (hnames hrecords.nodup₁) (hnames hrecords.nodup₂)) ?_
    rintro sources₁ sources₂ ⟨hrel, hn₁, hn₂⟩
    have hgraph : GraphRel P Q
        ((takeIn targets₁ digests₁ (newRecorder o₁ targets₁ seedHash)).graph e₁ o₁ sources₁)
        ((takeIn targets₂ digests₂ (newRecorder o₂ targets₂ seedHash)).graph e₂ o₂ sources₂) :=
      graphRel_takeIn hrecords.nodup₁ hrecords.nodup₂ hn₁ hn₂ hrecords.rules hrel.find
    refine prepareGraph_related hset seedHash seeds
      (unprepared_takeIn targets₁ digests₁ _ e₁ o₁ sources₁)
      (unprepared_takeIn targets₂ digests₂ _ e₂ o₂ sources₂)
      (stacks_takeIn hrecords.nodup₁ hn₁ hstacks) ?_ ?_ ?_ ?_
    · rcases hroot with hempty | ⟨hP, hdisk⟩
      · rw [foldIsolatedRoot_of_isEmpty _ o₁ hempty,
          foldIsolatedRoot_of_isEmpty _ o₂ (hset.resolver ▸ hempty)]
        exact .ok hgraph
      · rw [foldIsolatedRoot_congr _ hset.bazel hset.resolver hdisk]
        exact foldIsolatedRoot_related hP hgraph e₂ o₂
    · rw [htaken, htaken, mappingReady_related hset, sourceTargets, sourceTargets,
        hrecords.sources]
    · rw [hrecorder, hhashTargets _ (newRecorder o₂ targets₂ seedHash)]
      exact aliasTargets_related hgraph.rules (Option.Rel.refl_of RecorderRel.refl _) _
    · rw [hhashTargets _ (newRecorder o₂ targets₂ seedHash)]

end BazelDiff
