/-
# What a recording traversal leaves behind

In partial-graph mode the traversal records a recipe for every rule it finishes. Every
source a recipe names is a source target or a tracked file, and every dependency is a
finished rule or one that is still being hashed and will be finished. The one exception is
a package group reached through its visibility under the name of another target.
-/

import BazelDiff.Hash.Walk
import BazelDiff.Partial.Complete

namespace BazelDiff

open Text HashFunction Outcome

variable {D : Type}

/-! ## What a recipe may name -/

/-- A label in a rule's visibility that stands for a package group of another name. The
recipe names the label, and the group's own recipe is kept under the group's name. -/
def Misnamed (context : HashContext D) (rules : Labels D) (name dep : String) : Prop :=
  ∃ node group groupNode, context.nodes[name]? = some node ∧
    dep ∈ context.visibilityOf node.rule ∧ dep ≠ targetLabel name ∧
    (rules.find dep).rule = some group ∧ context.nodes[group]? = some groupNode ∧
    groupNode.rule.ruleClass = "package_group" ∧ group ≠ dep

/-- What a traversal that records is told about its inputs: the table keeps no rule aside,
tracked files can be fed, and hubs of one extension share one list. -/
structure Recordable [HashFunction D] (context : HashContext D) (Feedable : String → Prop) :
    Prop where
  keyed : KeyedNodes context.nodes
  soft : ∀ label (d : D), context.sourceHasher.softDigest label = .ok (some d) → Feedable label
  groups : ∀ {name name' : String} {node node' : RuleNode D} {group group' : RepositoryInputGroup},
    context.nodes[name]? = some node → context.nodes[name']? = some node' →
    node.prepared.sharedInputs = some group → node'.prepared.sharedInputs = some group' →
    group.extension = group'.extension → group.labels = group'.labels

/-- The sources and the dependencies of a recipe, or of one under construction, on a path of
rules still being hashed. -/
structure Covered (context : HashContext D) (rules : Labels D) (Feedable : String → Prop)
    (path : List String) (digests : StringMap (TargetDigest D)) (name : String)
    (sources deps : List String) : Prop where
  sources : ∀ label ∈ sources, Feedable label
  deps : ∀ dep ∈ deps, dep ∈ digests ∨ dep ∈ path ∨ Misnamed context rules name dep

/-- The recipes recorded so far: one for every finished rule. -/
structure RecipesOk [HashFunction D] (context : HashContext D) (rules : Labels D)
    (Feedable : String → Prop) (path : List String) (digests : StringMap (TargetDigest D))
    (recipes : StringMap RuleRecipe) : Prop where
  finished : ∀ name, name ∈ recipes ↔ name ∈ digests
  nodes : ∀ name ∈ digests, name ∈ context.nodes
  fixed : ∀ (name : String) recipe, recipes[name]? = some recipe →
    ∃ d : D, recipe.staticHex = hexDigest d
  covered : ∀ (name : String) recipe, recipes[name]? = some recipe →
    Covered context rules Feedable path digests name recipe.sources recipe.deps
  misnamed : ∀ (name : String) recipe, recipes[name]? = some recipe →
    ∀ dep, Misnamed context rules name dep → dep ∈ recipe.deps

/-- The state of a recording traversal that started from the table `rules` with the recorder
`base`. -/
structure Recorded [HashFunction D] (context : HashContext D) (rules : Labels D)
    (Feedable : String → Prop) (base : RecipeRecorder) (path : List String)
    (state : HashState D) : Prop where
  rule : ∀ key, (state.rules.find key).rule = (rules.find key).rule
  replaced : ∀ key, (state.rules.find key).replacedCanonical = none
  source : ∀ key, (state.rules.find key).source.isSome = true → Feedable key
  positions : context.PositionsOk state
  shared : ∀ {name : String} {node : RuleNode D} {group : RepositoryInputGroup},
    context.nodes[name]? = some node → node.prepared.sharedInputs = some group →
    group.extension ∈ state.repositoryInputDigests → ∀ label ∈ group.labels, label ∈ state.digests
  recorder : ∃ recipes, state.recorder =
      some { base with recipes := { base.recipes with rules := recipes } } ∧
    RecipesOk context rules Feedable path state.digests recipes

/-- The recipe of a rule under construction; the labels of its visibility `done` are in. -/
def Building (context : HashContext D) (rules : Labels D) (Feedable : String → Prop)
    (path : List String) (digests : StringMap (TargetDigest D)) (name : String)
    (done : List String) (builder : TargetDigestBuilder) : Prop :=
  ∃ recipe, builder.recipe = some recipe ∧
    Covered context rules Feedable path digests name recipe.sources recipe.deps ∧
    ∀ dep ∈ done, Misnamed context rules name dep → dep ∈ recipe.deps

variable {context : HashContext D} {rules : Labels D} {Feedable : String → Prop}
  {base : RecipeRecorder} {path : List String} {digests digests' : StringMap (TargetDigest D)}
  {name : String} {done : List String} {builder : TargetDigestBuilder}

theorem Covered.mono {path' sources deps : List String}
    (h : Covered context rules Feedable path digests name sources deps)
    (hknown : ∀ dep, dep ∈ digests ∨ dep ∈ path → dep ∈ digests' ∨ dep ∈ path') :
    Covered context rules Feedable path' digests' name sources deps where
  sources := h.sources
  deps dep hdep := by
    rcases h.deps dep hdep with hmem | hmem | hmem
    · exact (hknown dep (Or.inl hmem)).imp id Or.inl
    · exact (hknown dep (Or.inr hmem)).imp id Or.inl
    · exact Or.inr (Or.inr hmem)

namespace Building

theorem mono (h : Building context rules Feedable path digests name done builder)
    (hgrow : ∀ dep ∈ digests, dep ∈ digests') :
    Building context rules Feedable path digests' name done builder := by
  obtain ⟨recipe, hrecipe, hcovered, hdone⟩ := h
  exact ⟨recipe, hrecipe, hcovered.mono fun dep hdep => hdep.imp (hgrow dep) id, hdone⟩

theorem feed (h : Building context rules Feedable path digests name done builder)
    (fed : List UInt8) :
    Building context rules Feedable path digests name done (builder.direct fed) := by
  obtain ⟨recipe, hrecipe, hcovered, hdone⟩ := h
  refine ⟨{ recipe with fixed := recipe.fixed ++ fed }, ?_, hcovered, hdone⟩
  rw [TargetDigestBuilder.direct, hrecipe, Option.map_some]

variable [HashFunction D]

theorem source (h : Building context rules Feedable path digests name done builder)
    {label : String} (hlabel : Feedable label) (d : D) :
    Building context rules Feedable path digests name done (builder.source label d) := by
  obtain ⟨recipe, hrecipe, hcovered, hdone⟩ := h
  refine ⟨{ recipe with sources := recipe.sources ++ [label] }, ?_, ⟨?_, hcovered.deps⟩, hdone⟩
  · rw [TargetDigestBuilder.source, hrecipe, Option.map_some]
  · intro other hother
    rcases List.mem_append.mp hother with hmem | hlast
    · exact hcovered.sources other hmem
    · rw [List.mem_singleton.mp hlast]
      exact hlabel

theorem transitive (h : Building context rules Feedable path digests name done builder)
    {canonical : String}
    (hcanonical : canonical ∈ digests ∨ canonical ∈ path ∨ Misnamed context rules name canonical)
    (label : String) (d : D) :
    Building context rules Feedable path digests name done
      (builder.transitive label canonical d) := by
  obtain ⟨recipe, hrecipe, hcovered, hdone⟩ := h
  refine ⟨{ recipe with deps := recipe.deps ++ [canonical] }, ?_, ⟨hcovered.sources, ?_⟩,
    fun dep hdep hmisnamed => List.mem_append_left _ (hdone dep hdep hmisnamed)⟩
  · rw [TargetDigestBuilder.transitive, hrecipe, Option.map_some]
  · intro other hother
    rcases List.mem_append.mp hother with hmem | hlast
    · exact hcovered.deps other hmem
    · rw [List.mem_singleton.mp hlast]
      exact hcanonical

/-- A label of the visibility is done once the recipe names it. -/
theorem transitive_done (h : Building context rules Feedable path digests name done builder)
    {label : String}
    (hlabel : label ∈ digests ∨ label ∈ path ∨ Misnamed context rules name label) (d : D) :
    Building context rules Feedable path digests name (done ++ [label])
      (builder.transitive label label d) := by
  obtain ⟨recipe, hrecipe, hcovered, hdone⟩ := h.transitive hlabel label d
  refine ⟨recipe, hrecipe, hcovered, fun dep hdep hmisnamed => ?_⟩
  rcases List.mem_append.mp hdep with hmem | hlast
  · exact hdone dep hmem hmisnamed
  · rw [List.mem_singleton.mp hlast]
    obtain ⟨before, hbefore, -, -⟩ := h
    rw [TargetDigestBuilder.transitive, hbefore, Option.map_some] at hrecipe
    obtain rfl := Option.some.inj hrecipe
    exact List.mem_append_right _ (List.mem_singleton_self _)

end Building

variable [HashFunction D] {state : HashState D}

/-! ## Steps that change no recipe -/

theorem RecipesOk.mono {path' : List String} {recipes : StringMap RuleRecipe}
    (h : RecipesOk context rules Feedable path digests recipes)
    (hpath : ∀ dep ∈ path, dep ∈ path') :
    RecipesOk context rules Feedable path' digests recipes where
  finished := h.finished
  nodes := h.nodes
  fixed := h.fixed
  covered name recipe hrecipe :=
    (h.covered name recipe hrecipe).mono fun dep hdep => hdep.imp id (hpath dep)
  misnamed := h.misnamed

namespace Recorded

theorem mono {path' : List String} (h : Recorded context rules Feedable base path state)
    (hpath : ∀ dep ∈ path, dep ∈ path') : Recorded context rules Feedable base path' state := by
  obtain ⟨recipes, hrecorder, hrecipes⟩ := h.recorder
  exact { h with recorder := ⟨recipes, hrecorder, hrecipes.mono hpath⟩ }

theorem withBzlDigests (h : Recorded context rules Feedable base path state)
    (cached : StringMap (Option D)) :
    Recorded context rules Feedable base path { state with bzlDigests := cached } :=
  ⟨h.rule, h.replaced, h.source, h.positions, h.shared, h.recorder⟩

theorem withIndex (h : Recorded context rules Feedable base path state)
    (index : Option (StringMap (List String))) :
    Recorded context rules Feedable base path { state with labelInstances := index } :=
  ⟨h.rule, h.replaced, h.source, h.positions, h.shared, h.recorder⟩

theorem setSource (h : Recorded context rules Feedable base path state) {label : String}
    (hlabel : Feedable label) (d : D) :
    Recorded context rules Feedable base path (state.setSource label d) where
  rule key := by rw [HashState.rule_setSource, h.rule]
  replaced key := by
    rw [HashState.find_setSource]
    split_ifs
    · exact h.replaced label
    · exact h.replaced key
  source key hkey := by
    rw [HashState.find_setSource] at hkey
    split_ifs at hkey with heq
    · exact heq ▸ hlabel
    · exact h.source key hkey
  positions := h.positions.setSource label d
  shared := h.shared
  recorder := h.recorder

/-- No rule is kept aside, so no digest takes precedence. -/
theorem prior_eq_none (h : Recorded context rules Feedable base path state) (key : String) :
    state.prior (state.rules.find key) = none := by
  rw [HashState.prior, h.replaced]
  rfl

end Recorded

/-- The seed of a rule's stack changes the cache of file digests only. -/
theorem ruleBzlSeed_state (context : HashContext D) (state : HashState D) (rule : Rule) :
    Ensures (fun result => ∃ cached, result.1 = { state with bzlDigests := cached })
      (context.ruleBzlSeed state rule) := by
  rw [HashContext.ruleBzlSeed]
  split_ifs
  · exact Ensures.ok ⟨state.bzlDigests, rfl⟩
  · have hfiles : Ensures (fun fed : HashState D × List UInt8 =>
        ∃ cached, fed.1 = { state with bzlDigests := cached })
        ((HashContext.stackFiles rule).foldlM context.feedStackFile (state, [])) := by
      apply Ensures.foldlM
      · rintro file - ⟨fedState, fed⟩ ⟨cached, rfl⟩ next hnext
        obtain ⟨⟨state', d⟩, hd, hnext⟩ := bind_eq_ok hnext
        have hstate' : ∃ cached, state' = { state with bzlDigests := cached } := by
          rw [HashContext.bzlDigest] at hd
          split at hd
          · cases hd
            exact ⟨cached, rfl⟩
          · obtain ⟨soft, -, hd⟩ := bind_eq_ok hd
            cases hd
            exact ⟨_, rfl⟩
        cases d with
        | none =>
            cases hnext
            exact hstate'
        | some d =>
            cases hnext
            exact hstate'
      · exact ⟨state.bzlDigests, rfl⟩
    intro result hresult
    obtain ⟨fed, hfed, hresult⟩ := bind_eq_ok hresult
    cases hresult
    exact hfiles fed hfed

/-- A rule starts without sources and without dependencies. -/
theorem startDigest_building (h : Recorded context rules Feedable base path state)
    (node : RuleNode D) (name : String) :
    Ensures (fun fed => (Recorded context rules Feedable base path fed.1 ∧
        fed.1.digests = state.digests) ∧
      Building context rules Feedable path state.digests name [] fed.2)
      (context.startDigest state node) := by
  obtain ⟨recipes, hrecorder, -⟩ := h.recorder
  have hnew : Building context rules Feedable path state.digests name []
      (TargetDigestBuilder.new context.options.trackDeps state.recorder.isSome) := by
    refine ⟨{}, ?_, ⟨?_, ?_⟩, ?_⟩
    · rw [hrecorder]
      rfl
    · intro source hsource
      cases hsource
    · intro dep hdep
      cases hdep
    · intro dep hdep
      cases hdep
  rw [HashContext.startDigest]
  intro fed hfed
  obtain ⟨⟨state', seed⟩, hseed, hfed⟩ := bind_eq_ok hfed
  obtain ⟨cached, heq⟩ := ruleBzlSeed_state context state node.rule _ hseed
  dsimp only at heq
  subst heq
  cases hfed
  refine ⟨⟨h.withBzlDigests cached, rfl⟩, ?_⟩
  dsimp only
  have hfixed := (hnew.feed (bytes node.prepared.definitionDigest)).feed (bytes context.seedHash)
  cases seed.or context.packageBzlSeeds[labelPackage (targetLabel node.rule.name)]? with
  | none =>
      dsimp only
      split_ifs
      · exact hfixed.feed _
      · exact hfixed
  | some packageSeed =>
      have hseeded := hfixed.feed (bytes packageSeed)
      dsimp only
      split_ifs
      · exact hseeded.feed _
      · exact hseeded

omit [HashFunction D] in
/-- Shared inputs that have digests are finished rules. -/
theorem mem_digests_of_sharedDigest (h : ∀ key, (state.rules.find key).replacedCanonical = none)
    {labels : List String} {found : List (TargetDigest D)}
    (hfound : labels.mapM (HashContext.sharedDigest state) = some found) :
    ∀ label ∈ labels, label ∈ state.digests := by
  induction labels generalizing found with
  | nil => exact nofun
  | cons first rest ih =>
      rw [List.mapM_cons] at hfound
      obtain ⟨d, hd, hfound⟩ := Option.bind_eq_some_iff.mp hfound
      obtain ⟨more, hmore, -⟩ := Option.bind_eq_some_iff.mp hfound
      intro label hlabel
      rcases List.mem_cons.mp hlabel with rfl | hrest
      · rw [HashContext.sharedDigest] at hd
        split_ifs at hd
        rw [HashState.completed, h, Option.none_or] at hd
        obtain ⟨key, hkey, hcell⟩ := Option.bind_eq_some_iff.mp hd
        obtain ⟨-, hsame⟩ := Option.filter_eq_some_iff.mp hkey
        rw [of_decide_eq_true hsame] at hcell
        exact mem_of_getElem? hcell
      · exact ih hmore label hrest

/-- Inputs fed as one are finished rules. -/
theorem applyRepositoryInputs_building (hrecordable : Recordable context Feedable)
    (h : Recorded context rules Feedable base path state) {nodeName : String} {node : RuleNode D}
    (hnode : context.nodes[nodeName]? = some node) {group : RepositoryInputGroup}
    (hgroup : node.prepared.sharedInputs = some group)
    (hbuilding : Building context rules Feedable path state.digests name [] builder)
    {fed : HashState D × TargetDigestBuilder}
    (happly : HashContext.applyRepositoryInputs state group builder = some fed) :
    (Recorded context rules Feedable base path fed.1 ∧ fed.1.digests = state.digests) ∧
      Building context rules Feedable path state.digests name [] fed.2 := by
  obtain ⟨shared, hshared, happly⟩ := Option.bind_eq_some_iff.mp happly
  obtain rfl := Option.some.inj happly
  have hlabels : ∀ label ∈ group.labels, label ∈ state.digests := by
    by_cases hcached : group.extension ∈ state.repositoryInputDigests
    · exact h.shared hnode hgroup hcached
    · rw [Std.ExtTreeMap.getElem?_eq_none hcached, Option.none_or,
        HashContext.sharedDigests_eq] at hshared
      obtain ⟨found, hfound, -⟩ := Option.map_eq_some_iff.mp hshared
      exact mem_digests_of_sharedDigest h.replaced hfound
  have hcache : ∀ {name : String} {other : RuleNode D} {otherGroup : RepositoryInputGroup},
      context.nodes[name]? = some other → other.prepared.sharedInputs = some otherGroup →
      otherGroup.extension ∈ state.repositoryInputDigests.insertIfNew group.extension shared →
        ∀ label ∈ otherGroup.labels, label ∈ state.digests := by
    intro otherName other otherGroup hother hotherGroup hmem
    rcases Std.ExtTreeMap.mem_insertIfNew.mp hmem with hsame | hcached
    · have hextension := Std.LawfulEqOrd.eq_of_compare hsame
      rw [← hrecordable.groups hnode hother hgroup hotherGroup hextension]
      exact hlabels
    · exact h.shared hother hotherGroup hcached
  refine ⟨⟨⟨h.rule, h.replaced, h.source, h.positions, hcache, h.recorder⟩, rfl⟩, ?_⟩
  obtain ⟨recipe, hrecipe, hcovered, -⟩ := hbuilding.feed shared.1
  refine ⟨{ recipe with deps := group.labels }, ?_, ⟨hcovered.sources, ?_⟩, nofun⟩
  · rw [TargetDigestBuilder.shared]
    dsimp only
    rw [hrecipe, Option.map_some]
  · exact fun dep hdep => Or.inl (hlabels dep hdep)

/-! ## Visits -/

/-- What is known about a visit of a rule on a path: it finishes the rule unless the rule is
on the path, and forgets no finished rule. -/
def RecordingVisit (context : HashContext D) (rules : Labels D) (Feedable : String → Prop)
    (base : RecipeRecorder) (visit : HashContext.Visit D) (path : List String) : Prop :=
  ∀ name state, Recorded context rules Feedable base path state →
    Ensures (fun result => (Recorded context rules Feedable base path result.1 ∧
        ∀ other ∈ state.digests, other ∈ result.1.digests) ∧
      (name ∈ result.1.digests ∨ name ∈ path)) (visit name path state)

/-- The digest of a rule that is finished, or of one that is visited. -/
theorem visitOverall_recorded {visit : HashContext.Visit D}
    (hvisit : RecordingVisit context rules Feedable base visit path)
    (h : Recorded context rules Feedable base path state) (target : String) {prior : Option D}
    (hprior : prior.isSome = true → target ∈ state.digests) :
    Ensures (fun result => (Recorded context rules Feedable base path result.1 ∧
        ∀ other ∈ state.digests, other ∈ result.1.digests) ∧
      (target ∈ result.1.digests ∨ target ∈ path))
      (HashContext.visitOverall visit path state target prior) := by
  rw [HashContext.visitOverall]
  cases prior with
  | some d => exact Ensures.ok ⟨⟨h, fun _ hmem => hmem⟩, Or.inl (hprior rfl)⟩
  | none =>
      rw [Option.none_or]
      cases hdigest : state.digests[target]? with
      | some d => exact Ensures.ok ⟨⟨h, fun _ hmem => hmem⟩, Or.inl (mem_of_getElem? hdigest)⟩
      | none =>
          intro result hresult
          obtain ⟨⟨state', d⟩, hvisited, hpair⟩ : ∃ visited, visit target path state = .ok visited ∧
              (visited.1, visited.2.overall) = result := by
            cases hv : visit target path state with
            | error failure => rw [hv] at hresult; cases hresult
            | ok visited =>
                rw [hv] at hresult
                exact ⟨visited, rfl, Except.ok.inj hresult⟩
          subst hpair
          exact hvisit target state h _ hvisited

/-- What feeding leaves of the state and the builder of the rule `name`, when the rules
`known` were finished before. -/
structure FedOk (context : HashContext D) (rules : Labels D) (Feedable : String → Prop)
    (base : RecipeRecorder) (path : List String) (known : StringMap (TargetDigest D))
    (name : String) (done : List String) (fed : HashState D × TargetDigestBuilder) : Prop where
  state : Recorded context rules Feedable base path fed.1
  grown : ∀ other ∈ known, other ∈ fed.1.digests
  builder : Building context rules Feedable path fed.1.digests name done fed.2

/-- An input is a source that can be fed, or a rule no digest takes precedence over. -/
theorem resolveByName_cases (h : Recorded context rules Feedable base path state)
    {encodedInput inputLabel : String} {input : Input D} {onPath : List String}
    (hinput : state.resolveByName encodedInput inputLabel onPath = some input) :
    (∃ d, input = .source d ∧ Feedable inputLabel) ∨
      ∃ dependency node, input = .rule dependency node none := by
  have hresolving : ∀ key input, state.resolving key (state.rules.find key) = some input →
      ∃ dependency node, input = .rule dependency node none := by
    intro key input hresolved
    obtain ⟨node, -, rfl⟩ := Option.map_eq_some_iff.mp hresolved
    rw [h.prior_eq_none]
    exact ⟨key, node, rfl⟩
  rw [HashState.resolveByName] at hinput
  cases hsource : (state.rules.find inputLabel).source with
  | some d =>
      rw [hsource] at hinput
      exact Or.inl ⟨d, (Option.some.inj hinput).symm, h.source inputLabel (by rw [hsource]; rfl)⟩
  | none =>
      rw [hsource] at hinput
      dsimp only at hinput
      refine Or.inr ?_
      split at hinput
      · rename_i found hfound
        obtain rfl := Option.some.inj hinput
        rcases Option.or_eq_some_iff.mp hfound with hexact | ⟨-, hbare⟩
        · split_ifs at hexact
          exact hresolving _ _ hexact
        · exact hresolving _ _ hbare
      · split at hinput
        · cases hinput
        · split_ifs at hinput
          exact hresolving _ _ hinput

theorem feedInput_recorded (hrecordable : Recordable context Feedable)
    {visit : HashContext.Visit D} (hvisit : RecordingVisit context rules Feedable base visit path)
    {known : StringMap (TargetDigest D)}
    (h : FedOk context rules Feedable base path known name [] (state, builder))
    (canonicalKey : String) {inputLabel : String} {input : Option (Input D)}
    (hinput : ∀ found, input = some found → (∃ d, found = .source d ∧ Feedable inputLabel) ∨
      ∃ dependency node, found = .rule dependency node none) :
    Ensures (FedOk context rules Feedable base path known name [])
      (context.feedInput visit canonicalKey path inputLabel state builder input) := by
  intro fed hfed
  rw [HashContext.feedInput] at hfed
  split at hfed
  · rename_i d hfound
    cases hfed
    rcases hinput _ (Option.filter_eq_some_iff.mp hfound).1 with ⟨-, -, hlabel⟩ | ⟨_, _, heq⟩
    · exact ⟨h.state, h.grown, h.builder.source hlabel d⟩
    · cases heq
  · rename_i dependency node prior hfound
    obtain ⟨⟨state', d⟩, hvisited, hfed⟩ := bind_eq_ok hfed
    cases hfed
    rcases hinput _ (Option.filter_eq_some_iff.mp hfound).1 with ⟨_, heq, -⟩ | ⟨_, _, heq⟩
    · cases heq
    · cases heq
      obtain ⟨⟨h', hgrow⟩, hnode⟩ :=
        visitOverall_recorded hvisit h.state node (by simp) _ hvisited
      exact ⟨h', fun other hother => hgrow other (h.grown other hother),
        (h.builder.mono hgrow).transitive (hnode.imp id Or.inl) dependency d⟩
  · obtain ⟨soft, hsoft, hfed⟩ := bind_eq_ok hfed
    cases soft with
    | none =>
        cases hfed
        exact h
    | some d =>
        cases hfed
        have hlabel := hrecordable.soft inputLabel d hsoft
        exact ⟨h.state.setSource hlabel d, h.grown, h.builder.source hlabel d⟩

theorem inputStep_recorded (hrecordable : Recordable context Feedable)
    {visit : HashContext.Visit D} (hvisit : RecordingVisit context rules Feedable base visit path)
    {nodeName : String} {node : RuleNode D} (hnode : context.nodes[nodeName]? = some node)
    {more : List String} {input : String × Nat}
    (hinput : input ∈ (context.inputsOf node ++ more).zipIdx)
    {known : StringMap (TargetDigest D)} {fed : HashState D × TargetDigestBuilder}
    (hfed : FedOk context rules Feedable base path known name [] fed) :
    Ensures (FedOk context rules Feedable base path known name [])
      (context.inputStep visit node path fed input) := by
  obtain ⟨state, builder⟩ := fed
  obtain ⟨h, hgrown, hbuilding⟩ := hfed
  dsimp only at h hgrown hbuilding
  rw [HashContext.inputStep]
  dsimp only
  generalize HashContext.extensionView state (context.extensionOf node.rule) input.1 = view
  have hslot : ∀ id, (if view.isSome then none
        else node.inputPositions.bind fun ids => (ids[input.2]?).getD none) = some id →
      state.rules.ids[targetLabel (view.getD input.1)]? = some id := by
    intro id hid
    cases view with
    | none => exact h.positions.input hnode hinput hid
    | some view => cases hid
  obtain ⟨index, heq, -⟩ := state.resolveInput_eq (view.getD input.1) path hslot
  rw [heq]
  exact feedInput_recorded hrecordable hvisit
    ⟨h.withIndex index, hgrown, hbuilding.feed (utf8 (view.getD input.1))⟩ node.rule.name
    fun found hfound => resolveByName_cases h hfound

theorem visibilityStep_recorded {visit : HashContext.Visit D}
    (hvisit : RecordingVisit context rules Feedable base visit path) {node : RuleNode D}
    (hnode : context.nodes[name]? = some node) {packageGroup : String}
    (hgroup : packageGroup ∈ context.visibilityOf node.rule)
    {known : StringMap (TargetDigest D)} {fed : HashState D × TargetDigestBuilder}
    (hfed : FedOk context rules Feedable base path known name done fed) :
    Ensures (FedOk context rules Feedable base path known name (done ++ [packageGroup]))
      (context.visibilityStep visit name path fed packageGroup) := by
  obtain ⟨state, builder⟩ := fed
  obtain ⟨h, hgrown, hbuilding⟩ := hfed
  dsimp only at h hgrown hbuilding
  have hskip : (∀ group, ¬ (packageGroup ≠ targetLabel name ∧
      context.groupOf state packageGroup = some group)) →
      FedOk context rules Feedable base path known name (done ++ [packageGroup]) (state, builder) := by
    intro hnone
    obtain ⟨recipe, hrecipe, hcovered, hdone⟩ := hbuilding
    refine ⟨h, hgrown, recipe, hrecipe, hcovered, fun dep hdep hmisnamed => ?_⟩
    rcases List.mem_append.mp hdep with hmem | hlast
    · exact hdone dep hmem hmisnamed
    · rw [List.mem_singleton.mp hlast] at hmisnamed
      obtain ⟨-, group, groupNode, -, -, hne, hrule, hgroupNode, hclass, -⟩ := hmisnamed
      refine absurd ⟨hne, ?_⟩ (hnone group)
      rw [HashContext.groupOf, h.rule, hrule]
      simp [Option.filter, hgroupNode, hclass]
  rw [HashContext.visibilityStep_eq]
  split_ifs with hself
  · exact Ensures.ok (hskip fun group hgroup => hgroup.1 hself)
  · cases hfound : context.groupOf state packageGroup with
    | none => exact Ensures.ok (hskip fun group hgroup => by rw [hfound] at hgroup; cases hgroup.2)
    | some group =>
        obtain ⟨hrule, hclass⟩ := Option.filter_eq_some_iff.mp hfound
        obtain ⟨groupNode, hgroupNode, hclass⟩ : ∃ groupNode,
            context.nodes[group]? = some groupNode ∧
              groupNode.rule.ruleClass = "package_group" := by
          cases hgroupNode : context.nodes[group]? with
          | none => rw [hgroupNode] at hclass; cases hclass
          | some groupNode =>
              rw [hgroupNode] at hclass
              exact ⟨groupNode, rfl, of_decide_eq_true hclass⟩
        have hprior : ((state.completed (state.rules.find packageGroup) packageGroup).map
            (·.overall)).isSome = true → group ∈ state.digests := by
          intro hsome
          rw [Option.isSome_map] at hsome
          obtain ⟨d, hd⟩ := Option.isSome_iff_exists.mp hsome
          rw [HashState.completed, h.replaced, Option.none_or, hrule] at hd
          obtain ⟨key, hkey, hcell⟩ := Option.bind_eq_some_iff.mp hd
          obtain ⟨hkey, -⟩ := Option.filter_eq_some_iff.mp hkey
          rw [Option.some.inj hkey]
          exact mem_of_getElem? hcell
        intro fed hfed
        obtain ⟨⟨state', d⟩, hvisited, hfed⟩ := bind_eq_ok hfed
        cases hfed
        obtain ⟨⟨h', hgrow⟩, hmem⟩ := visitOverall_recorded hvisit h group hprior _ hvisited
        refine ⟨h', fun other hother => hgrow other (hgrown other hother),
          ((hbuilding.feed _).mono hgrow).transitive_done ?_ d⟩
        by_cases hsame : group = packageGroup
        · rw [← hsame]
          exact hmem.imp id Or.inl
        · rw [h.rule] at hrule
          exact Or.inr (Or.inr ⟨node, group, groupNode, hnode, hgroup, hself, hrule, hgroupNode,
            hclass, hsame⟩)

/-- A finished rule leaves the path and its recipe is kept. -/
theorem finishNode_recorded {node : RuleNode D} (hnode : context.nodes[name]? = some node)
    {known : StringMap (TargetDigest D)}
    (h : FedOk context rules Feedable base (name :: path) known name
      (context.visibilityOf node.rule) (state, builder)) :
    (Recorded context rules Feedable base path (HashContext.finishNode state name builder).1 ∧
      ∀ other ∈ known, other ∈ (HashContext.finishNode state name builder).1.digests) ∧
      name ∈ (HashContext.finishNode state name builder).1.digests := by
  obtain ⟨⟨hrule, hreplaced, hsource, hpositions, hshared, recipes, hrecorder, hrecipes⟩, hgrown,
    recipe, hrecipe, hcovered, hdone⟩ := h
  dsimp only at hrecorder hrecipes hgrown hcovered
  let finished : TargetDigest D := (builder.finish : TargetDigest D × Option RuleRecipe).1
  let kept : RuleRecipe := RuleRecipe.new (digest recipe.fixed : D) recipe.sources recipe.deps
  have hfinish : HashContext.finishNode state name builder =
      ({ state with
          recorder := some { base with
            recipes := { base.recipes with rules := recipes.insert name kept } }
          digests := state.digests.insert name finished }, finished) := by
    rw [HashContext.finishNode, TargetDigestBuilder.finish, hrecorder, hrecipe]
    rfl
  have hkept : ∀ other ∈ state.digests, other ∈ state.digests.insert name finished :=
    fun other hother => Std.ExtTreeMap.mem_insert.mpr (Or.inr hother)
  have hself : name ∈ state.digests.insert name finished := Std.ExtTreeMap.mem_insert_self
  have hknown : ∀ dep, dep ∈ state.digests ∨ dep ∈ name :: path →
      dep ∈ state.digests.insert name finished ∨ dep ∈ path := by
    rintro dep (hdep | hdep)
    · exact Or.inl (hkept dep hdep)
    · rcases List.mem_cons.mp hdep with rfl | hdep
      · exact Or.inl hself
      · exact Or.inr hdep
  have hcases : ∀ (other : String) found, (recipes.insert name kept)[other]? = some found →
      (other = name ∧ found = kept) ∨ recipes[other]? = some found := by
    intro other found hfound
    rw [Std.ExtTreeMap.getElem?_insert] at hfound
    split_ifs at hfound with hkey
    · exact Or.inl ⟨(Std.LawfulEqOrd.eq_of_compare hkey).symm, (Option.some.inj hfound).symm⟩
    · exact Or.inr hfound
  rw [hfinish]
  refine ⟨⟨⟨hrule, hreplaced, hsource, hpositions, fun hother hgroup hcached label hlabel =>
    hkept label (hshared hother hgroup hcached label hlabel), _, rfl, ?_⟩,
    fun other hother => hkept other (hgrown other hother)⟩, hself⟩
  constructor
  · intro other
    rw [Std.ExtTreeMap.mem_insert, Std.ExtTreeMap.mem_insert, hrecipes.finished]
  · intro other hother
    rcases Std.ExtTreeMap.mem_insert.mp hother with hsame | hmem
    · rw [← Std.LawfulEqOrd.eq_of_compare hsame]
      exact mem_of_getElem? hnode
    · exact hrecipes.nodes other hmem
  · intro other found hfound
    rcases hcases other found hfound with ⟨rfl, rfl⟩ | hold
    · exact ⟨digest recipe.fixed, rfl⟩
    · exact hrecipes.fixed other found hold
  · intro other found hfound
    rcases hcases other found hfound with ⟨rfl, rfl⟩ | hold
    · exact hcovered.mono hknown
    · exact (hrecipes.covered other found hold).mono hknown
  · intro other found hfound dep hdep
    rcases hcases other found hfound with ⟨rfl, rfl⟩ | hold
    · obtain ⟨node', group, groupNode, hnode', hmem, hrest⟩ := hdep
      rw [hnode] at hnode'
      obtain rfl := Option.some.inj hnode'
      exact hdone dep hmem ⟨node, group, groupNode, hnode, hmem, hrest⟩
    · exact hrecipes.misnamed other found hold dep hdep

theorem enterNode_recorded (hrecordable : Recordable context Feedable) {node : RuleNode D}
    (hnode : context.nodes[name]? = some node) {visit : HashContext.Visit D}
    (hvisit : RecordingVisit context rules Feedable base visit (name :: path))
    (h : Recorded context rules Feedable base path state) :
    Ensures (fun result => (Recorded context rules Feedable base path result.1 ∧
        ∀ other ∈ state.digests, other ∈ result.1.digests) ∧ name ∈ result.1.digests)
      (context.enterNode visit node path state) := by
  obtain rfl := hrecordable.keyed hnode
  have hloops : ∀ {fed : HashState D × TargetDigestBuilder} (more : List String),
      FedOk context rules Feedable base (node.rule.name :: path) state.digests node.rule.name []
        fed →
      Ensures (fun result : HashState D × TargetDigest D =>
        (Recorded context rules Feedable base path result.1 ∧
          ∀ other ∈ state.digests, other ∈ result.1.digests) ∧
          node.rule.name ∈ result.1.digests) (do
        let fed ← (context.inputsOf node ++ more).zipIdx.foldlM
          (context.inputStep visit node (node.rule.name :: path)) fed
        let fed ← (context.visibilityOf node.rule).foldlM
          (context.visibilityStep visit node.rule.name (node.rule.name :: path)) (fed.1, fed.2)
        return HashContext.finishNode fed.1 node.rule.name fed.2) := by
    intro fed more hfed
    refine Ensures.bind (Ensures.foldlM (fun input hinput fed hfed =>
      inputStep_recorded hrecordable hvisit hnode hinput hfed) hfed) ?_
    rintro ⟨state', builder'⟩ hfed
    have hgroups : Ensures (FedOk context rules Feedable base (node.rule.name :: path)
        state.digests node.rule.name (context.visibilityOf node.rule))
        ((context.visibilityOf node.rule).foldlM
          (context.visibilityStep visit node.rule.name (node.rule.name :: path))
          (state', builder')) := by
      refine Ensures.foldlM_done ?_ hfed
      intro before packageGroup after hsplit fed hfed
      have hmem : packageGroup ∈ context.visibilityOf node.rule := by
        rw [hsplit]
        exact List.mem_append_right _ List.mem_cons_self
      exact visibilityStep_recorded hvisit hnode hmem hfed
    refine Ensures.bind hgroups ?_
    rintro ⟨state', builder'⟩ hfed
    exact Ensures.ok (finishNode_recorded hnode hfed)
  rw [HashContext.enterNode]
  dsimp only
  have hpath : Recorded context rules Feedable base (node.rule.name :: path) state :=
    h.mono fun dep hdep => List.mem_cons_of_mem _ hdep
  refine Ensures.bind (startDigest_building hpath node node.rule.name) ?_
  rintro ⟨state', builder'⟩ ⟨⟨hstate', hdigests⟩, hbuilding⟩
  dsimp only at hstate' hdigests hbuilding
  have hfed : FedOk context rules Feedable base (node.rule.name :: path) state.digests
      node.rule.name [] (state', builder') :=
    ⟨hstate', fun other hother => by rwa [hdigests], by rwa [hdigests]⟩
  cases hgroup : node.prepared.sharedInputs with
  | none =>
      have hall := hloops [] hfed
      rw [List.append_nil] at hall
      exact hall
  | some group =>
      dsimp only
      cases happly : HashContext.applyRepositoryInputs state' group builder' with
      | none => exact hloops group.labels hfed
      | some fed =>
          obtain ⟨⟨hstate, hsame⟩, hbuilding⟩ :=
            applyRepositoryInputs_building hrecordable hstate' hnode hgroup hfed.builder happly
          have hall := @hloops fed []
            ⟨hstate, fun other hother => hsame ▸ hfed.grown other hother, hsame ▸ hbuilding⟩
          rw [List.append_nil] at hall
          exact hall

/-- A visit records the rule it finishes and every rule below it. -/
theorem nodeDigest_recorded (hrecordable : Recordable context Feedable) (fuel : Nat)
    (path : List String) :
    RecordingVisit context rules Feedable base (context.nodeDigest fuel) path := by
  induction fuel generalizing path with
  | zero => exact fun name state h => Ensures.error _
  | succ fuel ih =>
      intro name state h
      rw [HashContext.nodeDigest, HashContext.nodeStep]
      cases hdigest : state.digests[name]? with
      | some d => exact Ensures.ok ⟨⟨h, fun _ hmem => hmem⟩, Or.inl (mem_of_getElem? hdigest)⟩
      | none =>
          cases hnode : context.nodes[name]? with
          | none => exact Ensures.error _
          | some node =>
              dsimp only
              split_ifs with hmem
              · exact Ensures.ok ⟨⟨h, fun _ hmem => hmem⟩, Or.inr hmem⟩
              · exact (enterNode_recorded hrecordable hnode (ih (name :: path)) h).mono
                  fun result hresult => ⟨hresult.1, Or.inl hresult.2⟩

theorem ruleDigest_recorded (hrecordable : Recordable context Feedable)
    (h : Recorded context rules Feedable base [] state) (key : String) :
    Ensures (fun result => (Recorded context rules Feedable base [] result.1 ∧
        ∀ other ∈ state.digests, other ∈ result.1.digests) ∧
      ∃ name, (rules.find key).rule = some name ∧ name ∈ result.1.digests)
      (context.ruleDigest state key) := by
  rw [HashContext.ruleDigest_eq, h.prior_eq_none]
  dsimp only
  cases hrule : (state.rules.find key).rule with
  | none => exact Ensures.error _
  | some name =>
      refine Ensures.mono (nodeDigest_recorded hrecordable context.depth [] name state h) ?_
      rintro result ⟨hresult, hmem | hmem⟩
      · exact ⟨hresult, name, (h.rule key).symm.trans hrule, hmem⟩
      · exact absurd hmem List.not_mem_nil

/-! ## Whole runs -/

/-- The rule a target is hashed through has been finished. -/
def Hashed (rules : Labels D) (digests : StringMap (TargetDigest D)) (target : HashTarget) : Prop :=
  ∀ key, target.ruleKey = some key → ∃ name, (rules.find key).rule = some name ∧ name ∈ digests

theorem hashTarget_recorded (hrecordable : Recordable context Feedable)
    (h : Recorded context rules Feedable base [] state) (target : HashTarget) :
    Ensures (fun result => (Recorded context rules Feedable base [] result.1 ∧
        ∀ other ∈ state.digests, other ∈ result.1.digests) ∧
      Hashed rules result.1.digests target) (hashTarget context state target) := by
  cases target with
  | rule key =>
      refine Ensures.bind (ruleDigest_recorded hrecordable h key) ?_
      rintro ⟨state', d⟩ ⟨hstate', hname⟩
      refine Ensures.ok ⟨hstate', fun other hother => ?_⟩
      obtain rfl := Option.some.inj hother
      exact hname
  | generated name generatingRule =>
      refine Ensures.bind (ruleDigest_recorded hrecordable h generatingRule) ?_
      rintro ⟨state', d⟩ ⟨hstate', hname⟩
      refine Ensures.ok ⟨hstate', fun other hother => ?_⟩
      obtain rfl := Option.some.inj hother
      exact hname
  | source label => exact Ensures.ok ⟨⟨h, fun _ hmem => hmem⟩, nofun⟩

/-- A run that records ends with a recipe for every rule it finished, among them those its
targets are hashed through. -/
theorem run_recorded {prepared : Prepared D} (hrecordable : Recordable prepared.context Feedable)
    (h : Recorded prepared.context rules Feedable base [] prepared.state) :
    Ensures (fun done => Recorded prepared.context rules Feedable base [] done.1 ∧
      ∀ target ∈ prepared.targets, Hashed rules done.1.digests target) prepared.run := by
  refine Ensures.foldlM_done (Q := fun done (state : HashState D × List (KeyedDigest D)) =>
    Recorded prepared.context rules Feedable base [] state.1 ∧
      ∀ target ∈ done, Hashed rules state.1.digests target) ?_ ⟨h, nofun⟩
  rintro before target after - ⟨state, keyed⟩ ⟨hstate, hdone⟩
  refine Ensures.bind (hashTarget_recorded hrecordable hstate target) ?_
  rintro ⟨state', digest⟩ ⟨⟨hstate', hgrown⟩, htarget⟩
  refine Ensures.ok ⟨hstate', fun other hother => ?_⟩
  rcases List.mem_append.mp hother with hbefore | hlast
  · intro key hkey
    obtain ⟨name, hname, hmem⟩ := hdone other hbefore key hkey
    exact ⟨name, hname, hgrown name hmem⟩
  · rw [List.mem_singleton.mp hlast]
    exact htarget

end BazelDiff
