/-
# Impact with an isolated root

The hub of an isolated root has the sources scoped to it folded into its definition, and no
edge leads to them. So two generations that differ in the contents of sources may differ in
one definition as well. With the definition of every rule read as one more content, they still
hash one graph, and the labels reported as impacted are those from which a source with another
content, or the hub of scoped sources one of which has, can be reached.
-/

import BazelDiff.Impact.Reachability

namespace BazelDiff

open Text HashFunction HashGraph Outcome Relation

variable {D : Type} [HashFunction D]

/-! ## Definitions as contents -/

namespace HashContext

variable (context : HashContext D)

/-- What a rule is hashed from between its definition and its inputs. -/
def seedText (node : RuleNode D) : List UInt8 :=
  bytes context.seedHash ++
    (optionBytes ((context.stackSeed node.rule).or
      context.packageBzlSeeds[labelPackage (targetLabel node.rule.name)]?) ++
    (if context.isAlwaysAffected node.rule then bytes context.alwaysAffectedSeed else []))

theorem startText_eq (node : RuleNode D) :
    context.startText node = bytes node.prepared.definitionDigest ++ context.seedText node := by
  rw [startText, seedText, List.append_assoc, List.append_assoc]

/-- The definition digest of a rule. -/
def definition (name : String) : Option D :=
  (context.nodes[name]?).map (·.prepared.definitionDigest)

variable (start : HashState D)

/-- The pieces of a rule from its first input on. -/
def edgePieces (node : RuleNode D) : List (Piece String String) :=
  (context.allInputs node).flatMap (context.inputPieces start node) ++
    (context.visibilityOf node.rule).flatMap (context.groupPieces start node.rule.name)

/-- The pieces of a node, with its definition as one more source. -/
def splitPieces (name : String) : List (Piece (String ⊕ String) String) :=
  ((context.nodes[name]?).map fun node =>
    .source (.inr name) :: .text (context.seedText node) ::
      (context.edgePieces start node).map (Piece.mapSource .inl)).getD []

/-- The contents of labels and the definitions of rules. -/
def splitContent : String ⊕ String → Option D :=
  Sum.elim (context.content start) context.definition

variable {context start}

theorem pieces_of_node {name : String} {node : RuleNode D} (h : context.nodes[name]? = some node) :
    context.pieces start name = .text (bytes node.prepared.definitionDigest ++
      context.seedText node) :: context.edgePieces start node := by
  rw [pieces, h, Option.map_some, Option.getD_some, rulePieces, startText_eq, edgePieces]
  rfl

theorem splitPieces_of_node {name : String} {node : RuleNode D}
    (h : context.nodes[name]? = some node) :
    context.splitPieces start name = .source (.inr name) :: .text (context.seedText node) ::
      (context.edgePieces start node).map (Piece.mapSource .inl) := by
  rw [splitPieces, h, Option.map_some, Option.getD_some]

theorem pieces_of_none (start : HashState D) {name : String} (h : context.nodes[name]? = none) :
    context.pieces start name = [] ∧ context.splitPieces start name = [] := by
  rw [pieces, splitPieces, h]
  exact ⟨rfl, rfl⟩

variable (context start) in
theorem leads_splitPieces :
    Leads (context.splitPieces start) = Leads (context.pieces start) := by
  funext name target
  rw [Leads, Leads]
  cases hnode : context.nodes[name]? with
  | none =>
      obtain ⟨hpieces, hsplit⟩ := pieces_of_none start hnode
      rw [hpieces, hsplit]
      simp
  | some node =>
      rw [pieces_of_node hnode, splitPieces_of_node hnode]
      simp [node_mem_mapSource]

/-- Hashes do not depend on how the text of a definition is told apart from the rest. -/
theorem merkle_splitPieces {hashes : String → Option (Hashes D)}
    (h : Merkle (context.pieces start) (context.content start) hashes) :
    Merkle (context.splitPieces start) (context.splitContent start) hashes := by
  refine h.of_texts (fun name => ?_) (fun name => ?_)
    fun name target hleads => leads_splitPieces context start ▸ hleads
  · cases hnode : context.nodes[name]? with
    | none =>
        obtain ⟨hpieces, hsplit⟩ := pieces_of_none start hnode
        rw [hpieces, hsplit]
        rfl
    | some node =>
        have hdefinition : context.splitContent start (.inr name) =
            some node.prepared.definitionDigest := by
          rw [splitContent, Sum.elim_inr, definition, hnode, Option.map_some]
        have hedges := ownText_mapSource Sum.inl (context.edgePieces start node)
          (context.splitContent start)
        rw [pieces_of_node hnode, splitPieces_of_node hnode]
        rw [ownText] at hedges ⊢
        rw [ownText, List.flatMap_cons, List.flatMap_cons, List.flatMap_cons, hedges, Piece.own,
          Piece.own, Piece.own, hdefinition, List.append_assoc]
        rfl
  · cases hnode : context.nodes[name]? with
    | none =>
        obtain ⟨hpieces, hsplit⟩ := pieces_of_none start hnode
        rw [hpieces, hsplit]
        rfl
    | some node =>
        have hedges := belowText_mapSource (Sum.inl : String → String ⊕ String)
          (context.edgePieces start node) hashes
        rw [pieces_of_node hnode, splitPieces_of_node hnode]
        rw [belowText] at hedges ⊢
        rw [belowText, List.flatMap_cons, List.flatMap_cons, List.flatMap_cons, hedges]
        rfl

/-- A node's own sources are those it had, and its definition. -/
theorem touched_splitPieces {c₁ c₂ : HashContext D} {s₁ s₂ : HashState D} {name : String}
    (hnodes : (c₁.nodes[name]?).isSome = (c₂.nodes[name]?).isSome) :
    Touched (c₁.splitPieces s₁) (c₁.splitContent s₁) (c₂.splitContent s₂) name ↔
      Touched (c₁.pieces s₁) (c₁.content s₁) (c₂.content s₂) name ∨
        c₁.definition name ≠ c₂.definition name := by
  rw [Touched, Touched]
  cases hnode : c₁.nodes[name]? with
  | none =>
      obtain ⟨hpieces, hsplit⟩ := pieces_of_none s₁ hnode
      have hnone : c₂.nodes[name]? = none := by
        rw [← Option.not_isSome_iff_eq_none, ← hnodes, hnode]
        exact Bool.false_ne_true
      rw [hpieces, hsplit, definition, definition, hnode, hnone]
      simp
  | some node =>
      rw [pieces_of_node hnode, splitPieces_of_node hnode]
      constructor
      · rintro ⟨label, hlabel, hne⟩
        rcases List.mem_cons.mp hlabel with heq | hlabel
        · obtain rfl := Piece.source.inj heq
          exact Or.inr hne
        · rcases List.mem_cons.mp hlabel with heq | hlabel
          · cases heq
          · obtain ⟨piece, hpiece, heq⟩ := List.mem_map.mp hlabel
            cases piece with
            | text fed => cases heq
            | node target => cases heq
            | source source =>
                obtain rfl := Piece.source.inj heq
                exact Or.inl ⟨source, List.mem_cons_of_mem _ hpiece, hne⟩
      · rintro (⟨label, hlabel, hne⟩ | hne)
        · rcases List.mem_cons.mp hlabel with heq | hlabel
          · cases heq
          · refine ⟨.inl label, ?_, hne⟩
            exact List.mem_cons_of_mem _ (List.mem_cons_of_mem _
              (List.mem_map.mpr ⟨.source label, hlabel, rfl⟩))
        · exact ⟨.inr name, List.mem_cons_self, hne⟩

end HashContext

/-! ## Without the definitions -/

/-- The context with one definition for all rules. -/
def HashContext.redefine (d : D) (context : HashContext D) : HashContext D :=
  { context with nodes := context.nodes.map fun _ node => node.redefine d }

omit [HashFunction D] in
theorem HashContext.getElem?_redefine (d : D) (context : HashContext D) (name : String) :
    (context.redefine d).nodes[name]? = (context.nodes[name]?).map (·.redefine d) := by
  rw [redefine, Std.ExtTreeMap.getElem?_map]

omit [HashFunction D] in
theorem HashContext.edgePieces_redefine (d : D) (context : HashContext D) (start : HashState D)
    (node : RuleNode D) :
    (context.redefine d).edgePieces start (node.redefine d) = context.edgePieces start node := by
  have hgroup : ∀ packageGroup,
      (context.redefine d).groupOf start packageGroup = context.groupOf start packageGroup := by
    intro packageGroup
    rw [groupOf, groupOf]
    simp only [getElem?_redefine, Option.any_map]
    rfl
  have hgroups : (context.redefine d).groupPieces start node.rule.name =
      context.groupPieces start node.rule.name := by
    funext packageGroup
    rw [groupPieces, groupPieces, hgroup]
  rw [edgePieces, edgePieces]
  exact congrArg (_ ++ List.flatMap · _) hgroups

/-- Runs whose pieces are the same apart from definitions hash one graph. -/
theorem splitPieces_eq {d : D} {c₁ c₂ : HashContext D} {s₁ s₂ : HashState D}
    (hnodes : ∀ name : String, (c₁.nodes[name]?).isSome = (c₂.nodes[name]?).isSome)
    (h : (c₁.redefine d).pieces s₁ = (c₂.redefine d).pieces s₂) :
    c₁.splitPieces s₁ = c₂.splitPieces s₂ := by
  funext name
  have hname := congrFun h name
  have hsome := hnodes name
  cases hnode₁ : c₁.nodes[name]? with
  | none =>
      have hnode₂ : c₂.nodes[name]? = none := by
        rw [← Option.not_isSome_iff_eq_none, ← hsome, hnode₁]
        exact Bool.false_ne_true
      rw [(HashContext.pieces_of_none s₁ hnode₁).2, (HashContext.pieces_of_none s₂ hnode₂).2]
  | some n₁ =>
      rw [hnode₁] at hsome
      obtain ⟨n₂, hnode₂⟩ := Option.isSome_iff_exists.mp hsome.symm
      have hfound₁ : (c₁.redefine d).nodes[name]? = some (n₁.redefine d) := by
        rw [HashContext.getElem?_redefine, hnode₁, Option.map_some]
      have hfound₂ : (c₂.redefine d).nodes[name]? = some (n₂.redefine d) := by
        rw [HashContext.getElem?_redefine, hnode₂, Option.map_some]
      rw [HashContext.pieces_of_node hfound₁, HashContext.pieces_of_node hfound₂,
        HashContext.edgePieces_redefine, HashContext.edgePieces_redefine] at hname
      obtain ⟨htext, hedges⟩ := List.cons.inj hname
      have hseed := List.append_cancel_left (Piece.text.inj htext)
      rw [HashContext.splitPieces_of_node hnode₁, HashContext.splitPieces_of_node hnode₂, hedges]
      exact congrArg (fun fed => _ :: Piece.text fed :: _) hseed

/-! ## The start of two runs -/

def Graph.redefine (d : D) (graph : Graph D) : Graph D :=
  { graph with nodes := graph.nodes.map fun _ node => node.redefine d }

section Graphs

variable {graph graph' : Graph D} {environment : Environment D} {options : HashOptions}

omit [HashFunction D] in
theorem Graph.getElem?_redefine (d : D) (graph : Graph D) (name : String) :
    (graph.redefine d).nodes[name]? = (graph.nodes[name]?).map (·.redefine d) := by
  rw [redefine, Std.ExtTreeMap.getElem?_map]

omit [HashFunction D] in
/-- Preparing inputs keeps definitions. -/
theorem prepare_definition (graph : Graph D) (environment : Environment D) (options : HashOptions)
    (ready : Bool) (name : String) :
    ((graph.prepare environment options ready).nodes[name]?).map (·.prepared.definitionDigest) =
      (graph.nodes[name]?).map (·.prepared.definitionDigest) := by
  rw [Graph.prepare]
  split_ifs
  · rw [Graph.prepareInputs]
    dsimp only
    rw [Std.ExtTreeMap.getElem?_map, Option.map_map]
    rfl
  · rfl

omit [HashFunction D] in
theorem prepare_redefine (graph : Graph D) (environment : Environment D) (options : HashOptions)
    (ready : Bool) (d : D) (name : String) :
    ((graph.redefine d).prepare environment options ready).nodes[name]? =
      ((graph.prepare environment options ready).nodes[name]?).map (·.redefine d) := by
  rw [Graph.prepare, Graph.prepare]
  split_ifs
  · rw [Graph.prepareInputs, Graph.prepareInputs]
    dsimp only
    rw [Std.ExtTreeMap.getElem?_map, Std.ExtTreeMap.getElem?_map, Graph.getElem?_redefine,
      Option.map_map, Option.map_map]
    rfl
  · rw [Graph.getElem?_redefine]

/-- Folding an isolated root and aliasing generated files keep the sources. -/
theorem source_aliased (h : graph.foldIsolatedRoot environment options = .ok graph')
    {recorder : Option RecipeRecorder} {hashTargets : List HashTarget} {aliasing : Aliasing D}
    (halias : aliasTargets graph'.rules recorder hashTargets = .ok aliasing) (label : String) :
    (aliasing.rules.find label).source = (graph.rules.find label).source := by
  rw [aliasTargets_source _ _ _ label aliasing halias, (foldIsolatedRoot_ok h).1]

/-- Graphs that agree before an isolated root is folded still do apart from definitions. -/
theorem redefine_related {P Q : Prop} {g₁ g₂ graph₁ graph₂ : Graph D} {e₁ e₂ : Environment D}
    {o₁ o₂ : HashOptions} (h : GraphRel P Q g₁ g₂) (h₁ : g₁.foldIsolatedRoot e₁ o₁ = .ok graph₁)
    (h₂ : g₂.foldIsolatedRoot e₂ o₂ = .ok graph₂) (d : D) :
    GraphRel P Q (graph₁.redefine d) (graph₂.redefine d) := by
  refine ⟨fun key => ?_, fun name => ?_⟩
  · have hrules := h.rules key
    rw [← (foldIsolatedRoot_ok h₁).1, ← (foldIsolatedRoot_ok h₂).1] at hrules
    exact hrules
  · rw [Graph.getElem?_redefine, Graph.getElem?_redefine, foldIsolatedRoot_redefine h₁,
      foldIsolatedRoot_redefine h₂]
    exact (h.nodes name).map fun n₁ n₂ hn => { hn with definition := rfl }

end Graphs

omit [HashFunction D] in
theorem HashContext.PositionsOk.redefine {context : HashContext D} {state : HashState D}
    (h : context.PositionsOk state) (d : D) : (context.redefine d).PositionsOk state := by
  intro name node ids hnode hids
  rw [HashContext.getElem?_redefine] at hnode
  obtain ⟨original, horiginal, rfl⟩ := Option.map_eq_some_iff.mp hnode
  have hpositions : original.inputPositions = some ids := hids
  have hkept := h horiginal hpositions
  exact hkept

/-- Two generations over the same records, with the same definition digests, settings, seeds,
repository inputs and tree. They may differ in the contents of sources. A tree comes with the
options that partial-graph mode allows. -/
structure SameInputs (targets : List Target) (digests : PreparedRules D) (o₁ o₂ : HashOptions)
    (e₁ e₂ : Environment D) : Prop extends SameRecords targets digests o₁ o₂ e₁ e₂ where
  tree : o₁.partialTree = o₂.partialTree
  allowed : o₁.partialTree.isSome = true → validateHashOptions o₁ = .ok ()
  inputs : ∀ label ∈ e₁.resolver.scopedSources.repositoryInputs,
    (repositoryInputDigest e₁.disk o₁.bazel.workspace e₁.resolver.outputBase label : Result D) =
      repositoryInputDigest e₂.disk o₂.bazel.workspace e₂.resolver.outputBase label

/-- A label of one of some repositories. -/
def ScopedTo (repositories : StringSet) (label : String) : Prop :=
  ∃ repo rest, splitOnce "//" (trimStart '@' label) = some (repo, rest) ∧ repo ≠ "" ∧
    repo ∈ repositories

omit [HashFunction D] in
theorem mem_scopedSourceLabels (graph : Graph D) (repositories : StringSet) (label : String) :
    label ∈ graph.scopedSourceLabels repositories ↔
      (graph.rules.find label).source.isSome = true ∧ ScopedTo repositories label := by
  rw [Graph.scopedSourceLabels, List.mem_filter,
    SlotTable.mem_keysWith graph.rules (p := fun slot => slot.source.isSome) rfl, ScopedTo,
    Option.any_eq_true]
  simp

omit [HashFunction D] in
theorem scopedSourceLabels_related {P Q : Prop} {g₁ g₂ : Graph D} (h : GraphRel P Q g₁ g₂)
    (repositories : StringSet) :
    g₁.scopedSourceLabels repositories = g₂.scopedSourceLabels repositories := by
  rw [Graph.scopedSourceLabels, Graph.scopedSourceLabels]
  congr 1
  exact SlotTable.keysWith_congr rfl rfl fun key => (h.rules key).source.isSome_eq

/-- The text of the scoped sources tells each of their contents. -/
theorem scopedText_eq_iff {P Q : Prop} {g₁ g₂ : Graph D} (h : GraphRel P Q g₁ g₂)
    (repositories : StringSet) (rest : List UInt8) :
    g₁.scopedText repositories ++ rest = g₂.scopedText repositories ++ rest ↔
      ∀ label, ScopedTo repositories label →
        (g₁.rules.find label).source = (g₂.rules.find label).source := by
  have hshape : ∀ label, (g₁.rules.find label).source.isSome =
      (g₂.rules.find label).source.isSome := fun label => (h.rules label).source.isSome_eq
  rw [Graph.scopedText, Graph.scopedText, ← scopedSourceLabels_related h, flatMap_append_eq_iff,
    and_iff_left rfl]
  · constructor
    · intro hall label hlabel
      by_cases hsome : (g₁.rules.find label).source.isSome = true
      · have hin := (mem_scopedSourceLabels g₁ repositories label).mpr ⟨hsome, hlabel⟩
        exact (optionBytes_eq_iff (hshape label)).mp (List.append_cancel_left (hall label hin))
      · have hsome₂ := hsome
        rw [hshape] at hsome₂
        rw [Option.not_isSome_iff_eq_none.mp hsome, Option.not_isSome_iff_eq_none.mp hsome₂]
    · intro hall label hlabel
      rw [hall label ((mem_scopedSourceLabels g₁ repositories label).mp hlabel).2]
  · intro label hlabel rest₁ rest₂ heq
    have hparts : (Graph.lengthBytes label ++ utf8 label) ++
          (optionBytes (g₁.rules.find label).source ++ rest₁) =
        (Graph.lengthBytes label ++ utf8 label) ++
          (optionBytes (g₂.rules.find label).source ++ rest₂) := by
      rw [← List.append_assoc, ← List.append_assoc]
      exact heq
    rw [optionBytes_append (hshape label) (List.append_cancel_left hparts)]

/-- The hub of scoped sources is a rule of the query. -/
theorem node_of_hubKey {graph graph' : Graph D} {environment : Environment D}
    {options : HashOptions} (h : graph.foldIsolatedRoot environment options = .ok graph')
    {name : String}
    (hkey : hubKey environment options (fun key => (graph.rules.find key).rule) = some name) :
    (graph.nodes[name]?).isSome = true := by
  rw [hubKey] at hkey
  rw [Graph.foldIsolatedRoot] at h
  dsimp only at h
  split_ifs at h hkey
  obtain ⟨root, hroot, hrule⟩ := Option.bind_eq_some_iff.mp hkey
  rw [hroot] at h
  obtain ⟨found, hfound, -⟩ := bind_eq_ok h
  rw [hrule, Option.bind_some] at hfound
  obtain ⟨node, hnode, -⟩ := Option.map_eq_some_iff.mp (okOr_eq_ok hfound)
  rw [hnode]
  rfl

section Folded

variable {P Q : Prop} {g₁ g₂ graph₁ graph₂ : Graph D} {e₁ e₂ : Environment D}
  {o₁ o₂ : HashOptions}

/-- After an isolated root has been folded into graphs that agree, the definition of a rule is
the same in both, or the rule is the hub and some scoped source is not. -/
theorem definition_eq_iff (hinj : Function.Injective (digest : List UInt8 → D))
    (h : GraphRel P Q g₁ g₂) (h₁ : g₁.foldIsolatedRoot e₁ o₁ = .ok graph₁)
    (h₂ : g₂.foldIsolatedRoot e₂ o₂ = .ok graph₂) (hbazel : o₁.bazel = o₂.bazel)
    (hresolver : e₁.resolver = e₂.resolver)
    (hinputs : repositoryInputTexts e₁ o₁ = repositoryInputTexts e₂ o₂) (name : String) :
    (graph₁.nodes[name]?).map (·.prepared.definitionDigest) =
        (graph₂.nodes[name]?).map (·.prepared.definitionDigest) ↔
      (hubKey e₁ o₁ (fun key => (g₁.rules.find key).rule) = some name →
        ∀ label, ScopedTo e₁.resolver.scopedSources.repositories label →
          (g₁.rules.find label).source = (g₂.rules.find label).source) := by
  have hkeys : hubKey e₂ o₂ (fun key => (g₂.rules.find key).rule) =
      hubKey e₁ o₁ (fun key => (g₁.rules.find key).rule) := by
    have hrule : (fun key => (g₂.rules.find key).rule) = fun key => (g₁.rules.find key).rule :=
      funext fun key => ((h.rules key).rule).symm
    rw [hrule, hubKey, hubKey, hbazel, hresolver]
  rcases (h.nodes name).dest with ⟨hnone₁, hnone₂⟩ | ⟨n₁, n₂, hnode₁, hnode₂, hn⟩
  · have hfolded : ∀ {graph graph' : Graph D} {environment options}, graph.nodes[name]? = none →
        graph.foldIsolatedRoot environment options = .ok graph' → graph'.nodes[name]? = none := by
      intro graph graph' environment options hnone hfold
      have hmap := foldIsolatedRoot_redefine hfold (digest []) name
      rw [hnone] at hmap
      exact Option.map_eq_none_iff.mp hmap
    rw [hfolded hnone₁ h₁, hfolded hnone₂ h₂]
    refine iff_of_true rfl fun hkey => ?_
    have hsome := node_of_hubKey h₁ hkey
    rw [hnone₁] at hsome
    cases hsome
  · obtain ⟨f₁, hf₁, -, hplain₁, hhub₁⟩ := foldIsolatedRoot_definition h₁ hnode₁
    obtain ⟨f₂, hf₂, -, hplain₂, hhub₂⟩ := foldIsolatedRoot_definition h₂ hnode₂
    rw [hkeys] at hplain₂ hhub₂
    rw [hf₁, hf₂, Option.map_some, Option.map_some, Option.some.injEq]
    by_cases hkey : hubKey e₁ o₁ (fun key => (g₁.rules.find key).rule) = some name
    · obtain ⟨inputs, hok₁, hdefinition₁⟩ := hhub₁ hkey
      obtain ⟨inputs', hok₂, hdefinition₂⟩ := hhub₂ hkey
      obtain rfl : inputs = inputs' := Except.ok.inj (hok₁.symm.trans (hinputs.trans hok₂))
      rw [hdefinition₁, hdefinition₂, hinj.eq_iff, hn.definition, ← hresolver]
      simp only [List.append_assoc, List.append_cancel_left_eq]
      rw [scopedText_eq_iff h]
      exact ⟨fun hall _ => hall, fun hall => hall hkey⟩
    · rw [hplain₁ hkey, hplain₂ hkey, hn.definition]
      exact iff_of_true rfl fun hhub => absurd hhub hkey

end Folded

/-! ## Two generations with an isolated root -/

/-- What a rule is hashed from besides what it leads to is another: the content of one of its own
sources, or, for the hub of the isolated root, that of a source scoped to the root. -/
def Changed (targets : List Target) (options : HashOptions) (environment : Environment D)
    (p₁ p₂ : Prepared D) (name : String) : Prop :=
  Touched (p₁.context.pieces p₁.state) (p₁.context.content p₁.state)
      (p₂.context.content p₂.state) name ∨
    (hubKey environment options (ownRule targets) = some name ∧
      ∃ label, ScopedTo environment.resolver.scopedSources.repositories label ∧
        (p₁.state.rules.find label).source ≠ (p₂.state.rules.find label).source)

/-- A changed rule can be reached. -/
def ReachesChanged (targets : List Target) (options : HashOptions) (environment : Environment D)
    (p₁ p₂ : Prepared D) (name : String) : Prop :=
  ∃ target, ReflTransGen (Leads (p₁.context.pieces p₁.state)) name target ∧
    Changed targets options environment p₁ p₂ target

section Generations

variable {targets : List Target} {digests : PreparedRules D} {o₁ o₂ : HashOptions}
  {e₁ e₂ : Environment D} {p₁ p₂ : Prepared D}

/-- How two such runs outside partial-graph mode start: alike, apart from definitions, and with
definitions that tell the contents of the scoped sources. -/
structure StartedAlike (targets : List Target) (options : HashOptions) (environment : Environment D)
    (p₁ p₂ : Prepared D) : Prop where
  context : ∀ d, ContextRel False (p₁.context.redefine d) (p₂.context.redefine d)
  state : ∀ d, StateRel False False (p₁.context.redefine d) (p₂.context.redefine d) p₁.state p₂.state
  order : p₁.targets = p₂.targets
  definition : ∀ name, p₁.context.definition name = p₂.context.definition name ↔
    (hubKey environment options (ownRule targets) = some name →
      ∀ label, ScopedTo environment.resolver.scopedSources.repositories label →
        (p₁.state.rules.find label).source = (p₂.state.rules.find label).source)

/-- The repository inputs of an isolated root feed both runs alike. -/
theorem SameInputs.repositoryInputTexts_eq (h : SameInputs targets digests o₁ o₂ e₁ e₂) :
    repositoryInputTexts e₁ o₁ = repositoryInputTexts e₂ o₂ := by
  rw [repositoryInputTexts, repositoryInputTexts, ← h.setting.resolver]
  refine mapM_congr fun label hlabel => ?_
  have hinput := h.inputs label (Std.ExtTreeSet.mem_toList.mp hlabel)
  rw [← h.setting.resolver] at hinput
  rw [hinput]

/-- The rules of the prepared graph have the stacks of the records. -/
theorem SameRecords.stackRel_prepared (h : SameRecords targets digests o₁ o₂ e₁ e₂)
    (hnodup : (names targets).Nodup) {seedHash : D} {sources : List (String × D)}
    (hsources : (sources.map (·.1)).Nodup) {graph : Graph D}
    (hgraph : (queryGraph o₁ targets digests e₁ seedHash sources).foldIsolatedRoot e₁ o₁ =
      .ok graph) {ready : Bool} {name : String} {node : RuleNode D}
    (hnode : (graph.prepare e₁ o₁ ready).nodes[name]? = some node) :
    StackRel o₁ o₂ e₁ e₂ node.rule := by
  obtain ⟨original, horiginal, hstack⟩ := stack_prepared hgraph ready hnode
  rw [queryGraph] at horiginal
  exact (stacks_takeIn hnodup hsources h.stackFiles horiginal).congr hstack

theorem SameInputs.started (hinj : Function.Injective (digest : List UInt8 → D))
    (h : SameInputs targets digests o₁ o₂ e₁ e₂) (hnodup : (names targets).Nodup)
    (hfull : o₁.partialTree = none) (hp₁ : prepareTargets o₁ targets digests e₁ = .ok p₁)
    (hp₂ : prepareTargets o₂ targets digests e₂ = .ok p₂) :
    StartedAlike targets o₁ e₁ p₁ p₂ := by
  have hpositions₁ := (start_sources hp₁).1
  have hpositions₂ := (start_sources hp₂).1
  obtain ⟨seedHash, seeds, sources₁, graph₁, aliasing₁, nodes₁, hseed₁, hseeds₁, hsources₁, hgraph₁,
    halias₁, rfl, rfl⟩ := prepareTargets_start hp₁
  obtain ⟨seedHash', seeds', sources₂, graph₂, aliasing₂, nodes₂, hseed₂, hseeds₂, hsources₂,
    hgraph₂, halias₂, rfl, rfl⟩ := prepareTargets_start hp₂
  obtain rfl : seedHash = seedHash' := Except.ok.inj (hseed₁.symm.trans (h.seeds.trans hseed₂))
  obtain rfl : seeds = seeds' := Except.ok.inj (hseeds₁.symm.trans (h.bzl.trans hseeds₂))
  have hrecorder : ∀ options : HashOptions, options.partialTree = none →
      newRecorder options targets seedHash = none := by
    intro options hnone
    rw [newRecorder, hnone]
    rfl
  have hrecorder₁ := hrecorder o₁ hfull
  have hrecorder₂ := hrecorder o₂ (h.tree ▸ hfull)
  obtain ⟨sources, hsources, hrel⟩ := h.sources.ok_left hsources₁
  obtain rfl := Except.ok.inj (hsources₂.symm.trans hsources)
  have hn₁ := nodup_of_digestSources hnodup hsources₁
  have hn₂ := nodup_of_digestSources hnodup hsources₂
  have hqueried : GraphRel False False
      (queryGraph o₁ targets digests e₁ seedHash sources₁)
      (queryGraph o₂ targets digests e₂ seedHash sources₂) := by
    rw [queryGraph, queryGraph]
    exact graphRel_takeIn hnodup hnodup hn₁ hn₂ (h.records hnodup).rules hrel.find
  have halias : AliasRel False False aliasing₁ aliasing₂ := by
    have hrules := hqueried.rules
    rw [← (foldIsolatedRoot_ok hgraph₁).1, ← (foldIsolatedRoot_ok hgraph₂).1] at hrules
    rw [hrecorder₁] at halias₁
    rw [hrecorder₂] at halias₂
    obtain ⟨aliasing, haliasing, hrel⟩ := (aliasTargets_related hrules
      (Option.Rel.refl_of RecorderRel.refl _) _).ok_left halias₁
    obtain rfl := Except.ok.inj (halias₂.symm.trans haliasing)
    exact hrel
  have hready := mappingReady_related h.setting (sourceTargets targets)
  have hnodes : ∀ d, Pointwise (RawNodeRel False)
      ((graph₁.prepare e₁ o₁ (mappingReady e₁ o₁ (sourceTargets targets))).nodes.map
        fun _ node => node.redefine d)
      ((graph₂.prepare e₂ o₂ (mappingReady e₂ o₂ (sourceTargets targets))).nodes.map
        fun _ node => node.redefine d) := by
    intro d name
    rw [Std.ExtTreeMap.getElem?_map, Std.ExtTreeMap.getElem?_map, ← prepare_redefine,
      ← prepare_redefine, hready]
    exact (prepare_related (redefine_related hqueried hgraph₁ hgraph₂ d) h.setting.bazel
      h.setting.resolver _).nodes name
  have hstacks : ∀ (d : D) {name : String} {node : RuleNode D},
      ((graph₁.prepare e₁ o₁ (mappingReady e₁ o₁ (sourceTargets targets))).nodes.map
        fun _ node => node.redefine d)[name]? = some node → StackRel o₁ o₂ e₁ e₂ node.rule := by
    intro d name node hnode
    rw [Std.ExtTreeMap.getElem?_map] at hnode
    obtain ⟨prepared, hprepared, rfl⟩ := Option.map_eq_some_iff.mp hnode
    have hstack := h.stackRel_prepared hnodup hn₁ hgraph₁ hprepared
    exact hstack
  refine ⟨fun d => contextRel_runContext h.setting seedHash seeds (hnodes d) (hstacks d),
    fun d => ?_, rfl, fun name => ?_⟩
  · refine stateRel_startState halias ?_ (hpositions₁.redefine d) (hpositions₂.redefine d)
    exact halias.recorder.map fun _ _ hr =>
      recordLoading_related halias.rules False.elim False.elim hr
  · have hfolded := definition_eq_iff hinj hqueried hgraph₁ hgraph₂ h.setting.bazel
      h.setting.resolver h.repositoryInputTexts_eq name
    rw [ownRule_queryGraph hnodup hn₁] at hfolded
    rw [HashContext.definition, HashContext.definition, runContext, runContext]
    dsimp only [startState]
    rw [prepare_definition, prepare_definition, hfolded]
    simp only [source_aliased hgraph₁ halias₁, source_aliased hgraph₂ halias₂]

namespace StartedAlike

variable (h : StartedAlike targets o₁ e₁ p₁ p₂)
include h

theorem nodes_isSome (name : String) :
    (p₁.context.nodes[name]?).isSome = (p₂.context.nodes[name]?).isSome := by
  have hnode := ((h.context (digest [])).nodes name).isSome_eq
  rwa [HashContext.getElem?_redefine, HashContext.getElem?_redefine, Option.isSome_map,
    Option.isSome_map] at hnode

/-- Such runs hash one graph. -/
theorem splitPieces_eq :
    p₁.context.splitPieces p₁.state = p₂.context.splitPieces p₂.state :=
  BazelDiff.splitPieces_eq h.nodes_isSome
    (pieces_related (h.context (digest [])) (h.state (digest [])))

theorem content_isSome (label : String) :
    (p₁.context.content p₁.state label).isSome = (p₂.context.content p₂.state label).isSome :=
  (content_related (h.context (digest [])) (h.state (digest [])) label).isSome_eq

/-- Of what a rule is hashed from by itself, definitions included, some is another exactly when the
rule is changed. -/
theorem touched_iff_changed (name : String) :
    Touched (p₁.context.splitPieces p₁.state) (p₁.context.splitContent p₁.state)
        (p₂.context.splitContent p₂.state) name ↔ Changed targets o₁ e₁ p₁ p₂ name := by
  rw [HashContext.touched_splitPieces (h.nodes_isSome name), Changed]
  refine or_congr_right ?_
  rw [ne_eq, h.definition]
  push Not
  rfl

theorem reached_iff_changed (name : String) :
    Reached (p₁.context.splitPieces p₁.state) (p₁.context.splitContent p₁.state)
        (p₂.context.splitContent p₂.state) name ↔ ReachesChanged targets o₁ e₁ p₁ p₂ name := by
  rw [Reached, ReachesChanged, HashContext.leads_splitPieces]
  exact exists_congr fun target => and_congr_right fun _ => h.touched_iff_changed target

/-- The hashes of a rule differ as far as a changed rule can be reached from it. -/
theorem moved_iff (hinj : Function.Injective (digest : List UInt8 → D))
    (hacyclic : Acyclic p₁.context p₁.state) {hashes₁ hashes₂ : String → Option (Hashes D)}
    (h₁ : Merkle (p₁.context.pieces p₁.state) (p₁.context.content p₁.state) hashes₁)
    (h₂ : Merkle (p₂.context.pieces p₂.state) (p₂.context.content p₂.state) hashes₂)
    (hfinite : {name | (hashes₁ name).isSome = true}.Finite) {name : String} {a b : Hashes D}
    (ha : hashes₁ name = some a) (hb : hashes₂ name = some b) :
    (a.overall = b.overall ↔ ¬ ReachesChanged targets o₁ e₁ p₁ p₂ name) ∧
      (a.own = b.own ↔ ¬ Changed targets o₁ e₁ p₁ p₂ name) := by
  have hsplit₁ := HashContext.merkle_splitPieces h₁
  have hsplit₂ := HashContext.merkle_splitPieces h₂
  rw [← h.splitPieces_eq] at hsplit₂
  have hshape : ∀ label, (p₁.context.splitContent p₁.state label).isSome =
      (p₂.context.splitContent p₂.state label).isSome := by
    intro label
    cases label with
    | inl label => exact h.content_isSome label
    | inr name =>
        rw [HashContext.splitContent, HashContext.splitContent, Sum.elim_inr, Sum.elim_inr,
          HashContext.definition, HashContext.definition, Option.isSome_map, Option.isSome_map,
          h.nodes_isSome]
  have hacyclic' : ∀ name, ¬ TransGen (Leads (p₁.context.splitPieces p₁.state)) name name := by
    rw [HashContext.leads_splitPieces]
    exact hacyclic
  rw [← h.reached_iff_changed, ← h.touched_iff_changed]
  exact ⟨hsplit₁.overall_eq_iff_reached hinj hsplit₂ hacyclic' hfinite
      (fun _ label _ => hshape label) ha hb,
    hsplit₁.own_eq_iff hinj hsplit₂ (fun label _ => hshape label) ha hb⟩

/-- The second run's graph has no cycle either. -/
theorem acyclic (hacyclic : Acyclic p₁.context p₁.state) : Acyclic p₂.context p₂.state := by
  rw [Acyclic, ← HashContext.leads_splitPieces, ← h.splitPieces_eq, HashContext.leads_splitPieces]
  exact hacyclic

end StartedAlike

end Generations

/-! ## Partial-graph mode -/

section Tree

variable {targets : List Target} {digests : PreparedRules D} {o₁ o₂ : HashOptions}
  {e₁ e₂ : Environment D} {f₁ f₂ : HashFileData D}

/-- In partial-graph mode every content is read off the tree, so runs that share it start
alike. -/
theorem SameInputs.prepared_of_tree (h : SameInputs targets digests o₁ o₂ e₁ e₂)
    (hnodup : (names targets).Nodup) {tree : TreeIndex} (htree : o₁.partialTree = some tree)
    (hrepos : e₁.resolver.scopedSources.repositories.isEmpty = true) :
    Related (PreparedRel True False) (prepareTargets o₁ targets digests e₁)
      (prepareTargets o₂ targets digests e₂) := by
  obtain ⟨hcquery, hfine, -, -⟩ := validateHashOptions_ok (h.allowed (by rw [htree]; rfl))
  have htree₁ : (e₁.sourceHasher o₁).tree = some tree := htree
  have htree₂ : (e₂.sourceHasher o₂).tree = some tree := h.tree.symm.trans htree
  have hset : SettingRel True False o₁ o₂ e₁ e₂ :=
    { h.setting with
      soft := fun label => by
        rw [SourceHasher.softDigest_of_tree htree₁, SourceHasher.softDigest_of_tree htree₂]
        exact Related.refl (fun _ => Option.Rel.refl_of (fun _ _ => rfl) _) _ }
  have hfine₁ := sourceHasher_fineGrained hrepos hfine
  have hfine₂ : (e₂.sourceHasher o₂).fineGrainedExternalRepos = ∅ :=
    sourceHasher_fineGrained (h.setting.resolver ▸ hrepos) (h.setting.bazel ▸ hfine)
  refine prepareTargets_related hset (h.records hnodup) h.stackFiles (by rw [h.tree]) h.seeds h.bzl ?_
    (Or.inl hrepos)
  rw [← h.setting.bazel, hcquery, digestSources_of_tree htree₁ hfine₁,
    digestSources_of_tree htree₂ hfine₂]
  exact .ok (List.forall₂_same.mpr fun _ _ => ⟨rfl, fun _ => rfl⟩)

/-- Such runs end in the same hashes. -/
theorem SameInputs.hashes_eq_of_tree (h : SameInputs targets digests o₁ o₂ e₁ e₂)
    {tree : TreeIndex} (htree : o₁.partialTree = some tree)
    (hprepared : Related (PreparedRel True False) (prepareTargets o₁ targets digests e₁)
      (prepareTargets o₂ targets digests e₂))
    (h₁ : hashTargetsWithEnvironment o₁ targets digests e₁ = .ok f₁)
    (h₂ : hashTargetsWithEnvironment o₂ targets digests e₂ = .ok f₂) : f₁.hashes = f₂.hashes := by
  have hrel : Option.Rel (TreeRel D True) o₁.partialTree o₂.partialTree := by
    rw [← h.tree, htree]
    exact .some ⟨fun _ => rfl, fun _ => rfl⟩
  obtain ⟨file, hfile, hfiles⟩ :=
    (hashTargetsWithEnvironment_related h.setting.trackDeps hrel hprepared).ok_left h₁
  obtain rfl := Except.ok.inj (h₂.symm.trans hfile)
  refine Std.ExtTreeMap.ext_getElem? fun label => ?_
  rcases (hfiles.hashes label).dest with ⟨hnone₁, hnone₂⟩ | ⟨a, b, ha, hb, hab⟩
  · rw [hnone₁, hnone₂]
  · rw [ha, hb, hab.2 trivial]

/-- Nothing is changed between runs that start alike. -/
theorem not_marked_of_prepared {p₁ p₂ : Prepared D} (h : PreparedRel True False p₁ p₂)
    {options : HashOptions} {environment : Environment D} {mark : String → Prop}
    (hmark : ∀ name, mark name →
      ∃ target, Changed targets options environment p₁ p₂ target) (target : HashTarget) :
    ¬ p₁.Marked p₂ mark target := by
  have hsource : ∀ label,
      (p₁.state.rules.find label).source = (p₂.state.rules.find label).source := by
    intro label
    rcases (h.state.rules label).source.dest with ⟨hnone₁, hnone₂⟩ | ⟨a, b, ha, hb, hab⟩
    · rw [hnone₁, hnone₂]
    · rw [ha, hb, hab trivial]
  have hcontent : ∀ label,
      p₁.context.content p₁.state label = p₂.context.content p₂.state label := by
    intro label
    rcases (content_related h.context h.state label).dest with ⟨hnone₁, hnone₂⟩ |
      ⟨a, b, ha, hb, hab⟩
    · rw [hnone₁, hnone₂]
    · rw [ha, hb, hab trivial]
  have hsame : ∀ name, ¬ Changed targets options environment p₁ p₂ name := by
    rintro name (⟨label, -, hne⟩ | ⟨-, label, -, hne⟩)
    · exact hne (hcontent label)
    · exact hne (hsource label)
  have hnone : ∀ name, ¬ mark name := fun name hname =>
    (hmark name hname).elim fun target htarget => hsame target htarget
  cases target with
  | rule key => exact fun ⟨name, _, hname⟩ => hnone name hname
  | generated key generatingRule => exact fun ⟨name, _, hname⟩ => hnone name hname
  | source label => exact fun hne => hne (hsource label)

end Tree

/-! ## Impact -/

/-- The labels that two generations differ in are those of the targets from which a changed rule
or source can be reached, and the direct hash of a label changes with the targets that are
changed themselves. -/
theorem impacted_iff_reachesChanged [DecidableEq D]
    (hinj : Function.Injective (digest : List UInt8 → D)) {targets : List Target}
    {digests : PreparedRules D} {o₁ o₂ : HashOptions} {e₁ e₂ : Environment D}
    (hnodup : (names targets).Nodup) (hgroups : SharedGroups digests)
    (hhubs : SharesAsHubs digests targets) (hplain : SharesPlain digests)
    (h : SameInputs targets digests o₁ o₂ e₁ e₂) {p₁ p₂ : Prepared D}
    (hp₁ : prepareTargets o₁ targets digests e₁ = .ok p₁)
    (hp₂ : prepareTargets o₂ targets digests e₂ = .ok p₂)
    (hacyclic : Acyclic p₁.context p₁.state) {f₁ f₂ : HashFileData D}
    (h₁ : hashTargetsWithEnvironment o₁ targets digests e₁ = .ok f₁)
    (h₂ : hashTargetsWithEnvironment o₂ targets digests e₂ = .ok f₂) :
    (∃ labels, impactedTargets f₁.hashes f₂.hashes none false = .ok labels ∧
      ∀ label, label ∈ labels ↔ ∃ target ∈ p₁.targets, targetLabel target.label = label ∧
        p₁.Marked p₂ (ReachesChanged targets o₁ e₁ p₁ p₂) target) ∧
    ∀ (label : String) hash₁ hash₂, f₁.hashes[label]? = some hash₁ →
      f₂.hashes[label]? = some hash₂ → (hash₁.directHash ≠ hash₂.directHash ↔
        ∃ target ∈ p₁.targets, targetLabel target.label = label ∧
          p₁.Marked p₂ (Changed targets o₁ e₁ p₁ p₂) target) := by
  cases htree : o₁.partialTree with
  | none =>
      have hstart := h.started hinj hnodup htree hp₁ hp₂
      have hcontext := hstart.context (digest [])
      exact impacted_of_moved hinj hnodup hgroups hhubs hplain htree (h.tree ▸ htree) hp₁ hp₂
        (hstart.state (digest [])).rules hcontext.seedHash hcontext.packageBzlSeeds hstart.order
        hacyclic (hstart.acyclic hacyclic)
        (fun name hchanged => ⟨name, ReflTransGen.refl, hchanged⟩)
        (hstart.moved_iff hinj hacyclic) h₁ h₂
  | some tree =>
      -- The tree decides every content, and both runs have the same.
      have hroot := (validateHashOptions_ok (h.allowed (by rw [htree]; rfl))).2.2.1
      have hprepared := h.prepared_of_tree hnodup htree (scopedRepositories_of_ok hroot h₁)
      obtain ⟨p, hp, hrel⟩ := hprepared.ok_left hp₁
      obtain rfl := Except.ok.inj (hp₂.symm.trans hp)
      rw [h.hashes_eq_of_tree htree hprepared h₁ h₂]
      constructor
      · obtain ⟨labels, hok, hmem⟩ := impactedTargets_unfiltered f₂.hashes f₂.hashes
        refine ⟨labels, hok, fun label => (hmem label).trans (iff_of_false ?_ ?_)⟩
        · rintro ⟨hash, hhash, hne⟩
          exact hne hhash
        · rintro ⟨target, -, -, hmarked⟩
          exact not_marked_of_prepared hrel (fun name ⟨target, _, hchanged⟩ => ⟨target, hchanged⟩)
            target hmarked
      · intro label hash₁ hash₂ hhash₁ hhash₂
        obtain rfl := Option.some.inj (hhash₁.symm.trans hhash₂)
        refine iff_of_false (fun hne => hne rfl) ?_
        rintro ⟨target, -, -, hmarked⟩
        exact not_marked_of_prepared hrel (fun name hchanged => ⟨name, hchanged⟩) target hmarked

/-! ## Two small graphs -/

/-- A disk of directories, one of which holds a file. -/
def directoryDisk (directory content : String) : Disk where
  metadata _ := .ok { isFile := false, isDir := true, ownerExecutable := false }
  read _ := .ok []
  walk path :=
    .ok (if path = directory then [⟨"f", .file (.ok (utf8 content)) false⟩] else [])

def directoryEnvironment (resolver : ExternalRepoResolver) (directory content : String) :
    Environment Preimage :=
  { Environment.bare with disk := directoryDisk directory content, resolver := resolver }

/-- Runs that differ in that file. -/
theorem sameInputs_directory {targets : List Target} (digests : PreparedRules Preimage)
    {options : HashOptions} {resolver : ExternalRepoResolver} {directory old new : String}
    (hfull : options.partialTree = none) (hseeds : options.seedFilepaths = [])
    (hstacks : hasInstantiationStacks targets = true)
    (hinputs : resolver.scopedSources.repositoryInputs = ∅)
    (hold : (digestSources ((directoryEnvironment resolver directory old).sourceHasher options)
      options.bazel.useCquery (sourceTargets targets) :
        Result (List (String × Preimage))).toBool = true)
    (hnew : (digestSources ((directoryEnvironment resolver directory new).sourceHasher options)
      options.bazel.useCquery (sourceTargets targets) :
        Result (List (String × Preimage))).toBool = true) :
    SameInputs targets digests options options (directoryEnvironment resolver directory old)
      (directoryEnvironment resolver directory new) where
  setting := settingRel_of_no_files (fun _ => rfl) (fun _ => rfl) hfull hfull rfl rfl rfl rfl rfl rfl
  encode := rfl
  seeds := by rw [hseeds]; rfl
  bzl := by rw [bzlSeeds, bzlSeeds, if_pos hstacks, if_pos hstacks]
  stackFiles rule _ := stackRel_of_no_files (fun _ => rfl) (fun _ => rfl) hfull hfull rule
  sources := sources_related_of_ok hold hnew
  tree := rfl
  allowed := by rw [hfull]; exact fun hsome => absurd hsome Bool.false_ne_true
  inputs label hlabel := by
    change label ∈ resolver.scopedSources.repositoryInputs at hlabel
    rw [hinputs] at hlabel
    simp at hlabel

/-- An isolated root that shares a hidden repository, a rule that reads it, and a source scoped to
it. -/
def isolatedTargets : List Target :=
  [{ type := .rule, rule := some { name := "//external:hub", ruleClass := "bzlmod_repo" } },
   { type := .rule, rule := some { name := "//external:spoke", ruleClass := "bzlmod_repo" } },
   { type := .rule
     rule := some { name := "//p:a", ruleClass := "genrule", ruleInput := ["//external:hub"]
                    instantiationStack := ["p/BUILD:1"] } },
   { type := .sourceFile, sourceFile := some { name := "@@dep+//:data" } }]

def isolatedOptions : HashOptions :=
  { bazel := { workspace := "/w", isolatedDependencyRoot := some "@hub" } }

/-- The isolated root has one repository, whose source is a directory. -/
def isolatedEnvironment (content : String) : Environment Preimage :=
  directoryEnvironment
    { outputBase := "/o"
      scopedSources := { repositories := (∅ : StringSet).insert "dep+" } }
    "/o/external/dep+/data" content

theorem isolated_sameInputs : SameInputs isolatedTargets chainDigests isolatedOptions
    isolatedOptions (isolatedEnvironment "old") (isolatedEnvironment "new") :=
  sameInputs_directory chainDigests rfl rfl (by decide) rfl (by decide +kernel) (by decide +kernel)

/-- The sources among the pieces of a run's rules. -/
def pieceSources (prepared : Prepared D) : List String :=
  prepared.context.nodes.toList.flatMap fun entry =>
    (prepared.context.rulePieces prepared.state entry.2).filterMap fun
      | .source label => some label
      | _ => none

theorem mem_pieceSources {prepared : Prepared D} {name label : String}
    (h : .source label ∈ prepared.context.pieces prepared.state name) :
    label ∈ pieceSources prepared := by
  rw [HashContext.pieces] at h
  cases hnode : prepared.context.nodes[name]? with
  | none =>
      rw [hnode] at h
      cases h
  | some node =>
      rw [hnode] at h
      refine List.mem_flatMap.mpr ⟨(name, node),
        Std.ExtTreeMap.mem_toList_iff_getElem?_eq_some.mpr hnode, ?_⟩
      exact List.mem_filterMap.mpr ⟨.source label, h, rfl⟩

theorem isolated_prepared (content : String) (hcontent : content = "old" ∨ content = "new") :
    ∃ prepared : Prepared Preimage, prepareTargets isolatedOptions isolatedTargets chainDigests
      (isolatedEnvironment content) = .ok prepared ∧ pieceSources prepared = [] ∧
      Acyclic prepared.context prepared.state := by
  have hshape : (do
      let prepared ← prepareTargets isolatedOptions isolatedTargets chainDigests
        (isolatedEnvironment content)
      return (pieceEdges prepared, pieceSources prepared)) =
      .ok ([("//external:hub", "//external:spoke"), ("//p:a", "//external:hub")], []) := by
    rcases hcontent with rfl | rfl <;> decide +kernel
  obtain ⟨prepared, hprepared, hpair⟩ := bind_eq_ok hshape
  obtain ⟨hedges, hsources⟩ := Prod.mk.inj (Except.ok.inj hpair)
  refine ⟨prepared, hprepared, hsources, acyclic_of_pieceEdges
    (fun name => if name = "//p:a" then 2 else if name = "//external:hub" then 1 else 0) ?_⟩
  rw [hedges]
  decide

theorem isolated_impacted : ∃ f₁ f₂ : HashFileData Preimage,
    hashTargetsWithEnvironment isolatedOptions isolatedTargets chainDigests
      (isolatedEnvironment "old") = .ok f₁ ∧
    hashTargetsWithEnvironment isolatedOptions isolatedTargets chainDigests
      (isolatedEnvironment "new") = .ok f₂ ∧
    impactedTargets f₁.hashes f₂.hashes none false =
      .ok ["@@dep+//:data", "//external:hub", "//p:a"] := by
  have hfiles : (do
      let f₁ ← hashTargetsWithEnvironment isolatedOptions isolatedTargets chainDigests
        (isolatedEnvironment "old")
      let f₂ ← hashTargetsWithEnvironment isolatedOptions isolatedTargets chainDigests
        (isolatedEnvironment "new")
      impactedTargets f₁.hashes f₂.hashes none false) =
      .ok ["@@dep+//:data", "//external:hub", "//p:a"] := by
    decide +kernel
  obtain ⟨f₁, hf₁, hfiles⟩ := bind_eq_ok hfiles
  obtain ⟨f₂, hf₂, himpacted⟩ := bind_eq_ok hfiles
  exact ⟨f₁, f₂, hf₁, hf₂, himpacted⟩

/-- A change of the scoped source reaches the hub and the rule that reads it. -/
theorem impacted_iff_reachesChanged_isolated : ∃ p₁ p₂ : Prepared Preimage,
    prepareTargets isolatedOptions isolatedTargets chainDigests (isolatedEnvironment "old") =
      .ok p₁ ∧
    prepareTargets isolatedOptions isolatedTargets chainDigests (isolatedEnvironment "new") =
      .ok p₂ ∧
    ∀ label, label ∈ ["@@dep+//:data", "//external:hub", "//p:a"] ↔
      ∃ target ∈ p₁.targets, targetLabel target.label = label ∧ p₁.Marked p₂
        (ReachesChanged isolatedTargets isolatedOptions (isolatedEnvironment "old") p₁ p₂)
        target := by
  obtain ⟨p₁, hp₁, -, hacyclic⟩ := isolated_prepared "old" (Or.inl rfl)
  obtain ⟨p₂, hp₂, -⟩ := isolated_prepared "new" (Or.inr rfl)
  obtain ⟨hgroups, hhubs, hplain⟩ := sharing_chainDigests isolatedTargets (by decide +kernel)
  obtain ⟨f₁, f₂, hf₁, hf₂, himpacted⟩ := isolated_impacted
  obtain ⟨⟨labels, hlabels, hmem⟩, -⟩ := impacted_iff_reachesChanged Preimage.digest_injective
    (by decide) hgroups hhubs hplain isolated_sameInputs hp₁ hp₂ hacyclic hf₁ hf₂
  obtain rfl := Except.ok.inj (himpacted.symm.trans hlabels)
  exact ⟨p₁, p₂, hp₁, hp₂, hmem⟩

/-- A rule in two configurations, each of which reads a source, and a file that one of them
generates. -/
def instanceTargets : List Target :=
  [{ type := .rule
     rule := some
       { name := "//p:gen|b1", ruleClass := "genrule", instantiationStack := ["p/BUILD:1"]
         configuredRuleInput := [⟨some "//p:s", none⟩] } },
   { type := .rule
     rule := some
       { name := "//p:gen|b2", ruleClass := "genrule"
         configuredRuleInput := [⟨some "//p:t", none⟩] } },
   { type := .generatedFile, generatedFile := some ⟨"//p:out|b1", "//p:gen|b1"⟩ },
   { type := .sourceFile, sourceFile := some { name := "//p:s" } },
   { type := .sourceFile, sourceFile := some { name := "//p:t" } }]

def instanceOptions : HashOptions :=
  { bazel := { workspace := "/w", useCquery := true } }

def instanceEnvironment (content : String) : Environment Preimage :=
  directoryEnvironment {} "/w/p/t" content

theorem instance_sameInputs : SameInputs instanceTargets (SlotTable.empty : PreparedRules Preimage)
    instanceOptions instanceOptions (instanceEnvironment "old") (instanceEnvironment "new") :=
  sameInputs_directory SlotTable.empty rfl rfl (by decide) rfl (by decide +kernel)
    (by decide +kernel)

/-- A hub moves with a scoped source although no source can be reached from it, and a generated
file keeps its hash although the label of its rule moves with another configuration. -/
theorem impacted_without_reaching :
    (∃ (p₁ p₂ : Prepared Preimage) (f₁ f₂ : HashFileData Preimage) (labels : List String),
      SameInputs isolatedTargets chainDigests isolatedOptions isolatedOptions
        (isolatedEnvironment "old") (isolatedEnvironment "new") ∧
      prepareTargets isolatedOptions isolatedTargets chainDigests (isolatedEnvironment "old") =
        .ok p₁ ∧
      prepareTargets isolatedOptions isolatedTargets chainDigests (isolatedEnvironment "new") =
        .ok p₂ ∧
      Acyclic p₁.context p₁.state ∧
      hashTargetsWithEnvironment isolatedOptions isolatedTargets chainDigests
        (isolatedEnvironment "old") = .ok f₁ ∧
      hashTargetsWithEnvironment isolatedOptions isolatedTargets chainDigests
        (isolatedEnvironment "new") = .ok f₂ ∧
      impactedTargets f₁.hashes f₂.hashes none false = .ok labels ∧
      "//external:hub" ∈ labels ∧ ¬ p₁.Affected p₂ (.rule "//external:hub")) ∧
    ∃ (p₁ : Prepared Preimage) (f₁ f₂ : HashFileData Preimage) (labels : List String),
      SameInputs instanceTargets (SlotTable.empty : PreparedRules Preimage) instanceOptions
        instanceOptions (instanceEnvironment "old") (instanceEnvironment "new") ∧
      prepareTargets instanceOptions instanceTargets SlotTable.empty (instanceEnvironment "old") =
        .ok p₁ ∧
      Acyclic p₁.context p₁.state ∧
      hashTargetsWithEnvironment instanceOptions instanceTargets SlotTable.empty
        (instanceEnvironment "old") = .ok f₁ ∧
      hashTargetsWithEnvironment instanceOptions instanceTargets SlotTable.empty
        (instanceEnvironment "new") = .ok f₂ ∧
      impactedTargets f₁.hashes f₂.hashes none false = .ok labels ∧
      .generated "//p:out|b1" "//p:gen|b1" ∈ p₁.targets ∧ "//p:gen" ∈ labels ∧
      "//p:out" ∉ labels := by
  constructor
  · obtain ⟨p₁, hp₁, hsources, hacyclic⟩ := isolated_prepared "old" (Or.inl rfl)
    obtain ⟨p₂, hp₂, -⟩ := isolated_prepared "new" (Or.inr rfl)
    obtain ⟨f₁, f₂, hf₁, hf₂, himpacted⟩ := isolated_impacted
    refine ⟨p₁, p₂, f₁, f₂, _, isolated_sameInputs, hp₁, hp₂, hacyclic, hf₁, hf₂, himpacted,
      by decide, ?_⟩
    rintro ⟨name, -, target, -, label, hlabel, -⟩
    have hmem := mem_pieceSources hlabel
    rw [hsources] at hmem
    cases hmem
  · have hshape : (do
        let prepared ← prepareTargets instanceOptions instanceTargets
          (SlotTable.empty : PreparedRules Preimage) (instanceEnvironment "old")
        return (pieceEdges prepared, prepared.targets)) =
        .ok ([], [.rule "//p:gen|b1", .rule "//p:gen|b2", .generated "//p:out|b1" "//p:gen|b1",
          .source "//p:s", .source "//p:t"]) := by
      decide +kernel
    have hfiles : (do
        let f₁ ← hashTargetsWithEnvironment instanceOptions instanceTargets
          (SlotTable.empty : PreparedRules Preimage) (instanceEnvironment "old")
        let f₂ ← hashTargetsWithEnvironment instanceOptions instanceTargets
          (SlotTable.empty : PreparedRules Preimage) (instanceEnvironment "new")
        impactedTargets f₁.hashes f₂.hashes none false) = .ok ["//p:t", "//p:gen"] := by
      decide +kernel
    obtain ⟨p₁, hp₁, hpair⟩ := bind_eq_ok hshape
    obtain ⟨hedges, htargets⟩ := Prod.mk.inj (Except.ok.inj hpair)
    obtain ⟨f₁, hf₁, hfiles⟩ := bind_eq_ok hfiles
    obtain ⟨f₂, hf₂, himpacted⟩ := bind_eq_ok hfiles
    refine ⟨p₁, f₁, f₂, _, instance_sameInputs, hp₁, ?_, hf₁, hf₂, himpacted, ?_, by decide,
      by decide⟩
    · refine acyclic_of_pieceEdges (fun _ => 0) ?_
      rw [hedges]
      simp
    · rw [htargets]
      decide

end BazelDiff
