/-
# What a direct hash remembers

The first thing a rule's direct digest is fed is the digest of the rule's definition, and
so is the static part of its recipe. With an injective digest function, two runs that
give a rule the same hashes gave it the same definition.
-/

import BazelDiff.Hash.Start
import BazelDiff.Hash.Walk
import BazelDiff.Partial.Complete

namespace BazelDiff

open Text HashFunction Outcome

variable {D : Type} [HashFunction D]

/-- A digest of bytes that start with another digest. -/
def StartsFrom (first d : D) : Prop :=
  ∃ rest, d = digest (bytes first ++ rest)

/-- A digest of bytes that start with two other digests. -/
def StartsFromBoth (first second d : D) : Prop :=
  ∃ rest, d = digest (bytes first ++ (bytes second ++ rest))

theorem StartsFrom.inj (hinj : Function.Injective (digest : List UInt8 → D)) {first first' d : D}
    (h : StartsFrom first d) (h' : StartsFrom first' d) : first = first' := by
  obtain ⟨rest, rfl⟩ := h
  obtain ⟨rest', heq⟩ := h'
  exact (append_inj (hinj heq)).1

theorem StartsFromBoth.first {first second d : D} (h : StartsFromBoth first second d) :
    StartsFrom first d := by
  obtain ⟨rest, hd⟩ := h
  exact ⟨bytes second ++ rest, hd⟩

theorem StartsFromBoth.inj (hinj : Function.Injective (digest : List UInt8 → D))
    {first first' second second' d : D} (h : StartsFromBoth first second d)
    (h' : StartsFromBoth first' second' d) : second = second' := by
  obtain ⟨rest, rfl⟩ := h
  obtain ⟨rest', heq⟩ := h'
  exact (append_inj (append_inj (hinj heq)).2).1

/-- A builder that was fed the definition of its node first and the seed files next. -/
structure FedDefinition (seedHash : D) (node : RuleNode D) (builder : TargetDigestBuilder) :
    Prop where
  direct : ∃ rest, builder.directHasher =
    bytes node.prepared.definitionDigest ++ (bytes seedHash ++ rest)
  recipe : ∀ recipe, builder.recipe = some recipe →
    ∃ rest, recipe.fixed = bytes node.prepared.definitionDigest ++ (bytes seedHash ++ rest)

/-- Every completed digest and every recorded recipe starts from the definition of its node and
the seed files. -/
structure FromDefinitions (nodes : StringMap (RuleNode D)) (seedHash : D) (recording : Bool)
    (digests : StringMap (TargetDigest D)) (recorder : Option RecipeRecorder) : Prop where
  recording : recorder.isSome = recording
  seeded : ∀ r, recorder = some r → r.recipes.seedHash = hexDigest seedHash
  direct : ∀ (name : String) d, digests[name]? = some d → ∃ node, nodes[name]? = some node ∧
    StartsFromBoth node.prepared.definitionDigest seedHash d.direct
  recipe : ∀ r, recorder = some r → ∀ (name : String) recipe, r.recipes.rules[name]? = some recipe →
    ∃ (node : RuleNode D) (fixed : D), nodes[name]? = some node ∧
      recipe.staticHex = hexDigest fixed ∧
      StartsFromBoth node.prepared.definitionDigest seedHash fixed

namespace FedDefinition

variable {seedHash : D} {node : RuleNode D} {builder : TargetDigestBuilder}

theorem feed (h : FedDefinition seedHash node builder) (fed : List UInt8) :
    FedDefinition seedHash node (builder.direct fed) := by
  obtain ⟨rest, hrest⟩ := h.direct
  refine ⟨⟨rest ++ fed, ?_⟩, fun recipe hrecipe => ?_⟩
  · rw [TargetDigestBuilder.direct, hrest, List.append_assoc, List.append_assoc]
  · obtain ⟨before, hbefore, rfl⟩ := Option.map_eq_some_iff.mp hrecipe
    obtain ⟨rest, hrest⟩ := h.recipe before hbefore
    exact ⟨rest ++ fed, by rw [hrest, List.append_assoc, List.append_assoc]⟩

theorem source (h : FedDefinition seedHash node builder) (label : String) (d : D) :
    FedDefinition seedHash node (builder.source label d) := by
  obtain ⟨rest, hrest⟩ := h.direct
  refine ⟨⟨rest ++ bytes d, ?_⟩, fun recipe hrecipe => ?_⟩
  · rw [TargetDigestBuilder.source, hrest, List.append_assoc, List.append_assoc]
  · obtain ⟨before, hbefore, rfl⟩ := Option.map_eq_some_iff.mp hrecipe
    exact h.recipe before hbefore

theorem transitive (h : FedDefinition seedHash node builder) (label canonical : String) (d : D) :
    FedDefinition seedHash node (builder.transitive label canonical d) := by
  refine ⟨h.direct, fun recipe hrecipe => ?_⟩
  obtain ⟨before, hbefore, rfl⟩ := Option.map_eq_some_iff.mp hrecipe
  exact h.recipe before hbefore

theorem shared (h : FedDefinition seedHash node builder) (labels : List String)
    (labelBytes fed : List UInt8) :
    FedDefinition seedHash node (builder.shared labels labelBytes fed) := by
  have hfed := h.feed labelBytes
  refine ⟨hfed.direct, fun recipe hrecipe => ?_⟩
  obtain ⟨before, hbefore, rfl⟩ := Option.map_eq_some_iff.mp hrecipe
  exact hfed.recipe before hbefore

end FedDefinition

/-- Every rule a traversal finishes starts from its definition. -/
theorem walk_fromDefinitions {context : HashContext D} (hkeyed : KeyedNodes context.nodes)
    (recording : Bool) :
    Walk context (fun _ => True) (FromDefinitions context.nodes context.seedHash recording)
      (FedDefinition context.seedHash) where
  keyed := hkeyed
  missing _ := trivial
  reported _ := trivial
  soft label := Ensures.meets fun _ _ => trivial
  start node recordRecipe := by
    apply FedDefinition.mk
    · exact ⟨[], by simp [TargetDigestBuilder.new, TargetDigestBuilder.direct]⟩
    · intro recipe hrecipe
      cases recordRecipe with
      | false => cases hrecipe
      | true =>
          cases hrecipe
          exact ⟨[], by simp⟩
  direct h fed := h.feed fed
  source h label d := h.source label d
  transitive h label canonical d := h.transitive label canonical d
  shared h labels labelBytes fed := h.shared labels labelBytes fed
  finish := by
    intro name node builder state hnode hbuilder h
    obtain rfl := hkeyed hnode
    constructor
    · rw [← h.recording, HashContext.finishNode]
      dsimp only
      split
      · next hrecorder _ => rw [hrecorder, Option.isSome_some, Option.isSome_some]
      · rfl
    · intro recorder hrecorder
      rw [HashContext.finishNode] at hrecorder
      dsimp only at hrecorder
      split at hrecorder
      · next before finished hbefore hfinished =>
          obtain rfl := Option.some.inj hrecorder
          exact h.seeded before hbefore
      · exact h.seeded recorder hrecorder
    · intro other d hd
      rw [HashContext.finishNode, Std.ExtTreeMap.getElem?_insert] at hd
      split_ifs at hd with hother
      · obtain rfl := Std.LawfulEqOrd.eq_of_compare hother
        obtain rfl := Option.some.inj hd
        obtain ⟨rest, hrest⟩ := hbuilder.direct
        exact ⟨node, hnode, rest, congrArg digest hrest⟩
      · exact h.direct other d hd
    · intro recorder hrecorder other recipe hrecipe
      rw [HashContext.finishNode] at hrecorder
      dsimp only at hrecorder
      split at hrecorder
      · next before finished hbefore hfinished =>
          obtain rfl := Option.some.inj hrecorder
          rw [RecipeRecorder.recordRule, Std.ExtTreeMap.getElem?_insert] at hrecipe
          split_ifs at hrecipe with hother
          · obtain rfl := Std.LawfulEqOrd.eq_of_compare hother
            obtain rfl := Option.some.inj hrecipe
            obtain ⟨built, hbuilt, rfl⟩ := Option.map_eq_some_iff.mp hfinished
            obtain ⟨rest, hrest⟩ := hbuilder.recipe built hbuilt
            exact ⟨node, digest built.fixed, hnode, rfl, rest, congrArg digest hrest⟩
          · exact h.recipe before hbefore other recipe hrecipe
      · exact h.recipe recorder hrecorder other recipe hrecipe

/-! ## Evaluated hashes -/

/-- A digest that starts from the static part of a rule's recipe. -/
def FromRecipe (recipes : PartialRecipes) (key : String) (d : D) : Prop :=
  ∃ (recipe : RuleRecipe) (fixed : D), recipes.rules[key]? = some recipe ∧
    recipe.staticDigest = .ok fixed ∧ StartsFrom fixed d

/-- Every cached rule starts from its recipe. -/
def CachedFromRecipes (recipes : PartialRecipes) (memo : EvaluatorCache D) : Prop :=
  ∀ (key : String) digests, memo.cache[key]? = some digests → FromRecipe recipes key digests.2

namespace Evaluator

variable {evaluator : Evaluator D}

/-- What is known about the visits of an evaluation. -/
def VisitsFromRecipes (recipes : PartialRecipes) (visit : Visit D) : Prop :=
  ∀ key path memo, CachedFromRecipes recipes memo →
    Ensures (fun result => CachedFromRecipes recipes result.1 ∧
      (key ∉ path → FromRecipe recipes key result.2.2)) (visit key path memo)

theorem feedSource_fromRecipes (key : String) {fixed : D} (label : String)
    {state : EvaluatorCache D × List UInt8}
    (h : CachedFromRecipes evaluator.recipes state.1 ∧ ∃ rest, state.2 = bytes fixed ++ rest) :
    Ensures (fun result => CachedFromRecipes evaluator.recipes result.1 ∧
      ∃ rest, result.2 = bytes fixed ++ rest) (evaluator.feedSource key state label) := by
  obtain ⟨hmemo, rest, hrest⟩ := h
  have hsource : Ensures (fun result => CachedFromRecipes evaluator.recipes result.1)
      (evaluator.source key state.1 label) := by
    rw [source]
    split
    · exact Ensures.ok hmemo
    · dsimp only
      split
      · exact Ensures.ok hmemo
      · exact Ensures.error _
  intro result hresult
  obtain ⟨⟨memo, d⟩, hd, hresult⟩ := bind_eq_ok hresult
  cases hresult
  exact ⟨hsource _ hd, rest ++ bytes d, by rw [hrest, List.append_assoc]⟩

theorem rule_fromRecipes (fuel : Nat) :
    VisitsFromRecipes evaluator.recipes (evaluator.rule fuel) := by
  induction fuel with
  | zero => exact fun _ _ _ _ => Ensures.error _
  | succ fuel ih =>
      intro key path memo hmemo
      rw [rule, ruleStep]
      cases hcached : memo.cache[key]? with
      | some digests => exact Ensures.pure ⟨hmemo, fun _ => hmemo key digests hcached⟩
      | none =>
          intro result hresult
          obtain ⟨recipe, hrecipe, hresult⟩ := bind_eq_ok hresult
          obtain ⟨fixed, hfixed, hresult⟩ := bind_eq_ok hresult
          split_ifs at hresult with hpath
          · cases hresult
            exact ⟨hmemo, fun hnot => absurd hpath hnot⟩
          · obtain ⟨⟨memo₁, direct⟩, hsources, hresult⟩ := bind_eq_ok hresult
            obtain ⟨⟨memo₂, overall⟩, hdeps, hresult⟩ := bind_eq_ok hresult
            cases hresult
            obtain ⟨hmemo₁, rest, hrest⟩ := Ensures.foldlM
              (fun label _ state h => feedSource_fromRecipes key label h)
              ⟨hmemo, [], (List.append_nil (bytes fixed)).symm⟩ _ hsources
            have hfed : Ensures (fun state : EvaluatorCache D × List UInt8 =>
                CachedFromRecipes evaluator.recipes state.1)
                (recipe.deps.foldlM (feedDep (evaluator.rule fuel) (key :: path)) (memo₁, [])) := by
              apply Ensures.foldlM
              · intro dep _ state hstate next hnext
                obtain ⟨visited, hvisited, hnext⟩ := bind_eq_ok hnext
                cases hnext
                exact (ih dep (key :: path) state.1 hstate _ hvisited).1
              · exact hmemo₁
            have hkey : FromRecipe evaluator.recipes key (digest direct : D) :=
              ⟨recipe, fixed, okOr_eq_ok hrecipe, hfixed, rest, congrArg digest hrest⟩
            refine ⟨fun other digests hother => ?_, fun _ => hkey⟩
            rw [Std.ExtTreeMap.getElem?_insert] at hother
            split_ifs at hother with hsame
            · obtain rfl := Std.LawfulEqOrd.eq_of_compare hsame
              obtain rfl := Option.some.inj hother
              exact hkey
            · exact hfed _ hdeps other digests hother

end Evaluator

/-- What an evaluation makes the direct digest of a target from: a source's content and the seed
files, or the recipe of a rule. -/
structure MadeFrom (evaluation : Evaluation D) (label kind : String) (direct : D) : Prop where
  source : kind = "SourceFile" → direct = sourceTargetDigest evaluation.sourceDigests[label]?
    evaluation.seedHash evaluation.packageSeeds[labelPackage label]?
  rule : kind ≠ "SourceFile" → ∃ key, (kind = "Rule" → key = label) ∧
    FromRecipe evaluation.recipes key direct

theorem evaluateKind_madeFrom {evaluation : Evaluation D} {memo : EvaluatorCache D}
    (hmemo : CachedFromRecipes evaluation.recipes memo) (label kind : String) :
    Ensures (fun result => CachedFromRecipes evaluation.recipes result.1 ∧
      MadeFrom evaluation label kind result.2.2) (evaluateKind evaluation memo label kind) := by
  have hvisit := @Evaluator.rule_fromRecipes D _ evaluation.toEvaluator
    evaluation.toEvaluator.depth
  intro result hresult
  rw [evaluateKind] at hresult
  dsimp only at hresult
  split_ifs at hresult with hrule hgenerated hsource
  · obtain ⟨hresult, hfrom⟩ := hvisit label [] memo hmemo _ hresult
    refine ⟨hresult, fun hkind => ?_, fun _ => ⟨label, fun _ => rfl, hfrom List.not_mem_nil⟩⟩
    exact absurd (hrule.symm.trans hkind) (by decide)
  · obtain ⟨generatingRule, -, hresult⟩ := bind_eq_ok hresult
    obtain ⟨hresult, hfrom⟩ := hvisit generatingRule [] memo hmemo _ hresult
    refine ⟨hresult, fun hkind => ?_, fun _ =>
      ⟨generatingRule, fun hkind => absurd hkind hrule, hfrom List.not_mem_nil⟩⟩
    exact absurd (hgenerated.symm.trans hkind) (by decide)
  · cases hresult
    exact ⟨hmemo, fun _ => rfl, fun hkind => absurd hsource hkind⟩
  · cases hresult

/-- Every hash of an evaluation is made from the recipes it evaluates. -/
theorem evaluate_madeFrom {recipes : PartialRecipes} {targets : StringMap String}
    {tree : TreeIndex} {hashes : StringMap (TargetHash D)}
    (h : evaluate recipes targets tree = .ok hashes) :
    ∃ evaluation, prepareEvaluation recipes targets tree = .ok evaluation ∧
      ∀ label kind, targets[label]? = some kind → ∃ (overall direct : D),
        hashes[label]? = some ⟨kind, .sha256 overall, .sha256 direct⟩ ∧
          MadeFrom evaluation label kind direct := by
  rw [evaluate] at h
  obtain ⟨evaluation, hevaluation, h⟩ := bind_eq_ok h
  obtain ⟨⟨memo, result⟩, hloop, h⟩ := bind_eq_ok h
  obtain rfl : result = hashes := by cases h; rfl
  have hinv : Ensures (fun state : EvaluatorCache D × StringMap (TargetHash D) =>
      CachedFromRecipes evaluation.recipes state.1 ∧
        ∀ label kind, (label, kind) ∈ targets.toList → ∃ (overall direct : D),
          state.2[label]? = some ⟨kind, .sha256 overall, .sha256 direct⟩ ∧
            MadeFrom evaluation label kind direct)
      (targets.toList.foldlM (evaluateTarget evaluation) ({}, ∅)) := by
    apply Ensures.foldlM_done (Q := fun done (state : EvaluatorCache D × StringMap (TargetHash D)) =>
      CachedFromRecipes evaluation.recipes state.1 ∧
        ∀ label kind, (label, kind) ∈ done → ∃ (overall direct : D),
          state.2[label]? = some ⟨kind, .sha256 overall, .sha256 direct⟩ ∧
            MadeFrom evaluation label kind direct)
    · rintro before ⟨name, nameKind⟩ after hsplit ⟨memo, hashes⟩ ⟨hmemo, hdone⟩ state hstate
      obtain ⟨⟨memo', overall, direct⟩, hdigests, hstate⟩ := bind_eq_ok hstate
      cases hstate
      obtain ⟨hmemo', hfrom⟩ := evaluateKind_madeFrom hmemo name nameKind _ hdigests
      refine ⟨hmemo', fun label kind hlabel => ?_⟩
      rw [Std.ExtTreeMap.getElem?_insert]
      by_cases hsame : name = label
      · subst hsame
        have hkind : kind = nameKind := by
          rcases List.mem_append.mp hlabel with hbefore | hlast
          · have hdistinct := targets.distinct_keys_toList
            rw [hsplit, List.pairwise_append] at hdistinct
            exact absurd Std.ReflOrd.compare_self
              (hdistinct.2.2 _ hbefore (name, nameKind) List.mem_cons_self)
          · exact (Prod.mk.inj (List.mem_singleton.mp hlast)).2
        rw [if_pos Std.ReflOrd.compare_self, hkind]
        exact ⟨overall, direct, rfl, hfrom⟩
      · rw [if_neg fun hc => hsame (Std.LawfulEqOrd.eq_of_compare hc)]
        rcases List.mem_append.mp hlabel with hbefore | hlast
        · exact hdone label kind hbefore
        · exact absurd (Prod.mk.inj (List.mem_singleton.mp hlast)).1.symm hsame
    · constructor
      · intro key digests hcached
        simp at hcached
      · intro label kind hlabel
        cases hlabel
  refine ⟨evaluation, hevaluation, fun label kind hlabel => ?_⟩
  exact (hinv _ hloop).2 label kind (Std.ExtTreeMap.mem_toList_iff_getElem?_eq_some.mpr hlabel)

/-- Every rule of an evaluation has a direct hash that starts from its recipe. -/
theorem evaluate_fromRecipes {recipes : PartialRecipes} {targets : StringMap String}
    {tree : TreeIndex} {hashes : StringMap (TargetHash D)}
    (h : evaluate recipes targets tree = .ok hashes) {label : String}
    (hlabel : targets[label]? = some "Rule") :
    ∃ (overall direct : D), hashes[label]? = some ⟨"Rule", .sha256 overall, .sha256 direct⟩ ∧
      FromRecipe recipes label direct := by
  obtain ⟨evaluation, hevaluation, hmade⟩ := evaluate_madeFrom h
  obtain ⟨overall, direct, hhash, hfrom⟩ := hmade label "Rule" hlabel
  obtain ⟨key, hkey, hrecipe⟩ := hfrom.rule (by decide)
  rw [hkey rfl, (prepareEvaluation_ok hevaluation).1] at hrecipe
  exact ⟨overall, direct, hhash, hrecipe⟩

/-- What a run knows about the digest of a rule: it starts from the definition of its node. -/
def DirectFrom (context : HashContext D) (name : String) (d : TargetDigest D) : Prop :=
  ∃ node, context.nodes[name]? = some node ∧
    StartsFrom node.prepared.definitionDigest d.direct

section Run

variable {options : HashOptions} {targets : List Target} {digests : PreparedRules D}
  {environment : Environment D} {prepared : Prepared D}

/-- At the end of a run everything starts from its definition, and every rule has its own
digest. -/
theorem run_fromDefinitions (hnodup : (names targets).Nodup)
    (h : prepareTargets options targets digests environment = .ok prepared)
    {state : HashState D} {keyed : List (KeyedDigest D)} (hrun : prepared.run = .ok (state, keyed)) :
    FromDefinitions prepared.context.nodes prepared.context.seedHash options.partialTree.isSome
        state.digests state.recorder ∧
      List.Forall₂ (fun keyed target => keyed.key = target.label ∧ keyed.kind = target.kind ∧
        ∀ name rule, target = .rule name → findRule targets name = some rule →
          DirectFrom prepared.context name keyed.digest)
        keyed (sortedTargets (targets.filterMap hashTargetOf)) := by
  obtain ⟨seedHash, seeds, sources, graph, aliasing, -, -, -, -, -, -, -, hempty, -, htargets⟩ :=
    prepareTargets_ok h
  have hrecorder := start_recorder h
  have hstart : FromDefinitions prepared.context.nodes prepared.context.seedHash
      options.partialTree.isSome prepared.state.digests prepared.state.recorder := by
    have hfields : ∀ recorder, prepared.state.recorder = some recorder →
        recorder.recipes.rules = ∅ ∧
          recorder.recipes.seedHash = hexDigest prepared.context.seedHash := by
      intro recorder hsome
      rw [hsome, Option.map_some] at hrecorder
      obtain ⟨tree, -, heq⟩ := Option.map_eq_some_iff.mp hrecorder.symm
      exact ⟨(Prod.mk.inj heq).1.symm, (Prod.mk.inj heq).2.symm⟩
    constructor
    · simpa using congrArg Option.isSome hrecorder
    · exact fun recorder hsome => (hfields recorder hsome).2
    · intro name d hd
      rw [hempty] at hd
      simp at hd
    · intro recorder hsome name recipe hrecipe
      rw [(hfields recorder hsome).1] at hrecipe
      simp at hrecipe
  have hmeets := (walk_fromDefinitions (keyedNodes_prepareTargets options targets digests
    environment prepared h) options.partialTree.isSome).run
      (G := DirectFrom prepared.context) (fun hJ hd => by
        obtain ⟨node, hnode, hfrom⟩ := hJ.direct _ _ hd
        exact ⟨node, hnode, hfrom.first⟩) hstart
  obtain ⟨hholds, hdone⟩ := hmeets.ensures _ hrun
  refine ⟨hholds.digests, ?_⟩
  rw [← htargets]
  apply hdone.imp
  intro keyed target hhashed
  refine ⟨hhashed.key_kind.1, hhashed.key_kind.2, ?_⟩
  rintro name rule rfl hrule
  obtain ⟨-, -, node, hleads, hd⟩ := hhashed
  obtain ⟨hslot, hreplaced⟩ := start_slot hnodup h hrule
  rcases hleads with hleads | hleads
  · rw [hreplaced] at hleads
    cases hleads
  · rw [hslot] at hleads
    obtain rfl := Option.some.inj hleads
    exact hd

/-- The labels of the targets of a query result are names of its records. -/
theorem sortedTargets_labels (targets : List Target) :
    (∀ target ∈ sortedTargets (targets.filterMap hashTargetOf), target.label ∈ names targets) ∧
      ((names targets).Nodup →
        ((sortedTargets (targets.filterMap hashTargetOf)).map (·.label)).Nodup) := by
  have hperm : (sortedTargets (targets.filterMap hashTargetOf)).Perm
      (targets.filterMap hashTargetOf) := List.perm_insertionSort _ _
  constructor
  · intro target htarget
    obtain ⟨record, hrecord, hhashed⟩ := List.mem_filterMap.mp (hperm.mem_iff.mp htarget)
    exact List.mem_filterMap.mpr ⟨record, hrecord, targetName_of_hashTargetOf hhashed⟩
  · intro hnodup
    exact (hperm.map _).nodup_iff.mpr
      (nodup_filterMap (fun _ _ => targetName_of_hashTargetOf) hnodup)

/-- A rule of a query result is one of its targets. -/
theorem mem_sortedTargets_rule (hnodup : (names targets).Nodup) {name : String} {rule : Rule}
    (hrule : findRule targets name = some rule) :
    HashTarget.rule name ∈ sortedTargets (targets.filterMap hashTargetOf) := by
  obtain ⟨target, hmem, hruleOf, rfl⟩ := (findRule_eq_some_iff hnodup).mp hrule
  have hhashed : hashTargetOf target = some (.rule rule.name) := by
    rw [ruleOf] at hruleOf
    split_ifs at hruleOf with htype
    rw [hashTargetOf, htype, hruleOf]
    rfl
  rw [sortedTargets, List.mem_insertionSort]
  exact List.mem_filterMap.mpr ⟨target, hmem, hhashed⟩

/-- In partial-graph mode a rule's direct hash starts from the static part of its recipe, which
starts from its definition, when every name is its own label. -/
theorem evaluated_fromDefinition (hnodup : (names targets).Nodup)
    (hplain : ∀ name ∈ names targets, targetLabel name = name)
    (h : prepareTargets options targets digests environment = .ok prepared)
    {state : HashState D} {keyed : List (KeyedDigest D)} (hrun : prepared.run = .ok (state, keyed))
    {recorder : RecipeRecorder} (hrecorder : state.recorder = some recorder) {tree : TreeIndex}
    {hashes : StringMap (TargetHash D)}
    (hhashes : evaluate recorder.finish
      (targetKinds (aggregateByLabel keyed options.trackDeps).hashes) tree = .ok hashes)
    {name : String} {rule : Rule} (hrule : findRule targets name = some rule) :
    ∃ (overall direct fixed : D) (node : RuleNode D),
      hashes[name]? = some ⟨"Rule", .sha256 overall, .sha256 direct⟩ ∧
      prepared.context.nodes[name]? = some node ∧
      StartsFrom node.prepared.definitionDigest fixed ∧ StartsFrom fixed direct := by
  obtain ⟨hinv, hkeyed⟩ := run_fromDefinitions hnodup h hrun
  obtain ⟨hlabels, hdistinct⟩ := sortedTargets_labels targets
  obtain ⟨own, hown, hkey, hkind, -⟩ := hkeyed.exists_left (mem_sortedTargets_rule hnodup hrule)
  have hentry := (hashes_of_plain (hkeyed.imp fun _ _ h => ⟨h.1, h.2.1⟩) (hdistinct hnodup)
    (fun target htarget => hplain _ (hlabels target htarget)) options.trackDeps).1 own hown
  rw [hkey, hkind] at hentry
  have hrule' : (targetKinds (aggregateByLabel keyed options.trackDeps).hashes)[name]? =
      some "Rule" := by
    rw [targetKinds, Std.ExtTreeMap.getElem?_map]
    exact congrArg (Option.map (·.kind)) hentry
  obtain ⟨overall, direct, hhash, recipe, fixed, hrecipe, hfixed, hdirect⟩ :=
    evaluate_fromRecipes hhashes hrule'
  rw [RecipeRecorder.finish_rules] at hrecipe
  obtain ⟨node, fixed', hnode, hhex, hdefinition⟩ :=
    hinv.recipe recorder hrecorder name recipe hrecipe
  rw [RuleRecipe.staticDigest, hhex, decodeDigest_hexDigest] at hfixed
  obtain rfl := Except.ok.inj hfixed
  exact ⟨overall, direct, fixed', node, hhash, hnode, hdefinition.first, hdirect⟩

end Run

/-! ## Two runs with the same hashes -/

section TwoRuns

variable {options : HashOptions} {targets₁ targets₂ : List Target} {digests₁ digests₂ : PreparedRules D}
  {environment : Environment D} {prepared₁ prepared₂ : Prepared D} {state₁ state₂ : HashState D}
  {keyed₁ keyed₂ : List (KeyedDigest D)} {name : String} {rule₁ rule₂ : Rule}

/-- Two runs over the same targets that end with the same hashes gave every rule's node the
same definition. -/
theorem node_definitions_of_same_hashes
    (hinj : Function.Injective (digest : List UInt8 → D)) (hn₁ : (names targets₁).Nodup)
    (hn₂ : (names targets₂).Nodup)
    (htargets : targets₁.filterMap hashTargetOf = targets₂.filterMap hashTargetOf)
    (h₁ : prepareTargets options targets₁ digests₁ environment = .ok prepared₁)
    (h₂ : prepareTargets options targets₂ digests₂ environment = .ok prepared₂)
    (hrun₁ : prepared₁.run = .ok (state₁, keyed₁)) (hrun₂ : prepared₂.run = .ok (state₂, keyed₂))
    (hsame : (aggregateByLabel keyed₁ options.trackDeps).hashes =
      (aggregateByLabel keyed₂ options.trackDeps).hashes)
    (hrule₁ : findRule targets₁ name = some rule₁) (hrule₂ : findRule targets₂ name = some rule₂) :
    ∃ node₁ node₂, prepared₁.context.nodes[name]? = some node₁ ∧
      prepared₂.context.nodes[name]? = some node₂ ∧
      node₁.prepared.definitionDigest = node₂.prepared.definitionDigest := by
  have hdone₁ := (run_fromDefinitions hn₁ h₁ hrun₁).2
  have hdone₂ := (run_fromDefinitions hn₂ h₂ hrun₂).2
  rw [htargets] at hdone₁
  obtain ⟨pairs, rfl, rfl, hpairs⟩ := hdone₁.pairs hdone₂
  obtain ⟨own, hown, ⟨hkey₁, -, hfrom₁⟩, -, -, hfrom₂⟩ :=
    hpairs.exists_left (mem_sortedTargets_rule hn₂ hrule₂)
  have hkeys : ∀ pair ∈ pairs, pair.1.key = pair.2.key := by
    intro pair hpair
    obtain ⟨target, -, hpair₁, hpair₂⟩ := hpairs.exists_right hpair
    rw [hpair₁.1, hpair₂.1]
  obtain ⟨found, hfound₁, hfound₂, hmem⟩ := instancesOf_pairs hkeys (targetLabel name)
  have hownFound : own ∈ found := (hmem own).mpr ⟨hown, congrArg targetLabel hkey₁⟩
  have hkinds : ∀ pair ∈ found, pair.1.kind = pair.2.kind := by
    intro pair hpair
    obtain ⟨target, -, hpair₁, hpair₂⟩ := hpairs.exists_right ((hmem pair).mp hpair).1
    rw [hpair₁.2.1, hpair₂.2.1]
  obtain ⟨hash₁, hash₂, hhash₁, hhash₂, -, -, hdirect⟩ :=
    hashOfInstances_pairs hinj (List.ne_nil_of_mem hownFound) hkinds
  have hhash : hash₁ = hash₂ := by
    have hlabel := congrArg (fun hashes : StringMap (TargetHash D) =>
      hashes[targetLabel name]?) hsame
    rw [hashes_aggregateByLabel, hashes_aggregateByLabel, hfound₁, hfound₂, hhash₁, hhash₂] at hlabel
    exact Option.some.inj hlabel
  have hsameDirect := hdirect.mp (congrArg TargetHash.directHash hhash) own hownFound
  obtain ⟨node₁, hnode₁, hstart₁⟩ := hfrom₁ name rule₁ rfl hrule₁
  obtain ⟨node₂, hnode₂, hstart₂⟩ := hfrom₂ name rule₂ rfl hrule₂
  rw [hsameDirect] at hstart₁
  exact ⟨node₁, node₂, hnode₁, hnode₂, hstart₁.inj hinj hstart₂⟩

/-- The definition of a node is that of the rule it was built from, or starts from it, alike in
two runs over the same rules. -/
theorem definition_of_node_definition
    (hinj : Function.Injective (digest : List UInt8 → D)) (hn₁ : (names targets₁).Nodup)
    (hn₂ : (names targets₂).Nodup) (hown : ownRule targets₁ = ownRule targets₂)
    (h₁ : prepareTargets options targets₁ digests₁ environment = .ok prepared₁)
    (h₂ : prepareTargets options targets₂ digests₂ environment = .ok prepared₂)
    (hrule₁ : findRule targets₁ name = some rule₁) (hrule₂ : findRule targets₂ name = some rule₂)
    {node₁ node₂ : RuleNode D} (hnode₁ : prepared₁.context.nodes[name]? = some node₁)
    (hnode₂ : prepared₂.context.nodes[name]? = some node₂)
    (hsame : node₁.prepared.definitionDigest = node₂.prepared.definitionDigest) :
    (nodeOf digests₁ environment options rule₁).prepared.definitionDigest =
      (nodeOf digests₂ environment options rule₂).prepared.definitionDigest := by
  obtain ⟨found₁, hfound₁, hplain₁, hhub₁⟩ := start_node hn₁ h₁ hrule₁
  obtain ⟨found₂, hfound₂, hplain₂, hhub₂⟩ := start_node hn₂ h₂ hrule₂
  obtain rfl : found₁ = node₁ := Option.some.inj (hfound₁.symm.trans hnode₁)
  obtain rfl : found₂ = node₂ := Option.some.inj (hfound₂.symm.trans hnode₂)
  rw [hown] at hplain₁ hhub₁
  by_cases hhub : hubKey environment options (ownRule targets₂) = some name
  · have hstart₁ : StartsFrom _ found₁.prepared.definitionDigest := hhub₁ hhub
    have hstart₂ : StartsFrom _ found₂.prepared.definitionDigest := hhub₂ hhub
    rw [hsame] at hstart₁
    exact hstart₁.inj hinj hstart₂
  · rw [← hplain₁ hhub, ← hplain₂ hhub, hsame]

/-- Two generations over the same targets that return the same hashes used the same
definitions. In partial-graph mode every name has to be its own label. -/
theorem definitions_of_same_hashes
    (hinj : Function.Injective (digest : List UInt8 → D)) (hn₁ : (names targets₁).Nodup)
    (hn₂ : (names targets₂).Nodup)
    (htargets : targets₁.filterMap hashTargetOf = targets₂.filterMap hashTargetOf)
    (hown : ownRule targets₁ = ownRule targets₂) (hnames : names targets₁ = names targets₂)
    (hmode : options.partialTree = none ∨ ∀ name ∈ names targets₂, targetLabel name = name)
    {file₁ file₂ : HashFileData D}
    (h₁ : hashTargetsWithEnvironment options targets₁ digests₁ environment = .ok file₁)
    (h₂ : hashTargetsWithEnvironment options targets₂ digests₂ environment = .ok file₂)
    (hsame : file₁.hashes = file₂.hashes) (hrule₁ : findRule targets₁ name = some rule₁)
    (hrule₂ : findRule targets₂ name = some rule₂) :
    (nodeOf digests₁ environment options rule₁).prepared.definitionDigest =
      (nodeOf digests₂ environment options rule₂).prepared.definitionDigest := by
  obtain ⟨prepared₁, hprepared₁, h₁⟩ := bind_eq_ok h₁
  obtain ⟨⟨state₁, keyed₁⟩, hrun₁, h₁⟩ := bind_eq_ok h₁
  obtain ⟨prepared₂, hprepared₂, h₂⟩ := bind_eq_ok h₂
  obtain ⟨⟨state₂, keyed₂⟩, hrun₂, h₂⟩ := bind_eq_ok h₂
  change hashFile options environment state₁ keyed₁ = .ok file₁ at h₁
  change hashFile options environment state₂ keyed₂ = .ok file₂ at h₂
  have hrecording₁ := (run_fromDefinitions hn₁ hprepared₁ hrun₁).1.recording
  have hrecording₂ := (run_fromDefinitions hn₂ hprepared₂ hrun₂).1.recording
  rw [hashFile] at h₁ h₂
  cases htree : options.partialTree with
  | none =>
      rw [htree, Option.isSome_none, Option.isSome_eq_false_iff, Option.isNone_iff_eq_none]
        at hrecording₁ hrecording₂
      rw [htree, hrecording₁] at h₁
      rw [htree, hrecording₂] at h₂
      cases h₁
      cases h₂
      obtain ⟨node₁, node₂, hnode₁, hnode₂, hdefinition⟩ := node_definitions_of_same_hashes hinj
        hn₁ hn₂ htargets hprepared₁ hprepared₂ hrun₁ hrun₂ hsame hrule₁ hrule₂
      exact definition_of_node_definition hinj hn₁ hn₂ hown hprepared₁ hprepared₂ hrule₁ hrule₂
        hnode₁ hnode₂ hdefinition
  | some tree =>
      have hplain : ∀ name ∈ names targets₂, targetLabel name = name :=
        hmode.resolve_left (by rw [htree]; exact Option.some_ne_none tree)
      rw [htree, Option.isSome_some] at hrecording₁ hrecording₂
      obtain ⟨recorder₁, hrecorder₁⟩ := Option.isSome_iff_exists.mp hrecording₁
      obtain ⟨recorder₂, hrecorder₂⟩ := Option.isSome_iff_exists.mp hrecording₂
      rw [htree, hrecorder₁] at h₁
      rw [htree, hrecorder₂] at h₂
      obtain ⟨hashes₁, hhashes₁, h₁⟩ := bind_eq_ok h₁
      obtain ⟨hashes₂, hhashes₂, h₂⟩ := bind_eq_ok h₂
      cases h₁
      cases h₂
      obtain ⟨overall₁, direct₁, fixed₁, node₁, hhash₁, hnode₁, hfixed₁, hdirect₁⟩ :=
        evaluated_fromDefinition hn₁ (hnames ▸ hplain) hprepared₁ hrun₁ hrecorder₁ hhashes₁ hrule₁
      obtain ⟨overall₂, direct₂, fixed₂, node₂, hhash₂, hnode₂, hfixed₂, hdirect₂⟩ :=
        evaluated_fromDefinition hn₂ hplain hprepared₂ hrun₂ hrecorder₂ hhashes₂ hrule₂
      dsimp only at hsame
      rw [hsame, hhash₂] at hhash₁
      obtain ⟨-, -, hdirect⟩ := TargetHash.mk.inj (Option.some.inj hhash₁)
      obtain rfl := Digest.sha256.inj hdirect
      obtain rfl := hdirect₁.inj hinj hdirect₂
      exact definition_of_node_definition hinj hn₁ hn₂ hown hprepared₁ hprepared₂ hrule₁ hrule₂
        hnode₁ hnode₂ (hfixed₁.inj hinj hfixed₂)

end TwoRuns

end BazelDiff
