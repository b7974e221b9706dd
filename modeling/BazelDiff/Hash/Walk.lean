/-
# One run of the traversal

An invariant of the completed digests and the recorded recipes that every finished rule
keeps holds at the end of a traversal, and a traversal whose nodes are filed under their
own names never exhausts its recursion budget: the names on the path are distinct nodes.
-/

import BazelDiff.Hash.Prepare

namespace BazelDiff

open Text HashFunction Outcome

variable {D : Type}

/-- The kind a target is filed with. -/
def HashTarget.kind : HashTarget → String
  | .rule _ => "Rule"
  | .generated _ _ => "GeneratedFile"
  | .source _ => "SourceFile"

/-- The rule a target is hashed through. -/
def HashTarget.ruleKey : HashTarget → Option String
  | .rule key => some key
  | .generated _ generatingRule => some generatingRule
  | .source _ => none

/-- Every node is filed under the name of its rule. -/
def KeyedNodes (nodes : StringMap (RuleNode D)) : Prop :=
  ∀ ⦃name : String⦄ ⦃node : RuleNode D⦄, nodes[name]? = some node → node.rule.name = name

variable [HashFunction D]

/-- An invariant `J` of the digests and the recipes, kept by every rule that is finished
with a builder that satisfies `B`; failures satisfy `E`. -/
structure Walk (context : HashContext D) (E : Failure → Prop)
    (J : StringMap (TargetDigest D) → Option RecipeRecorder → Prop)
    (B : RuleNode D → TargetDigestBuilder → Prop) : Prop where
  keyed : KeyedNodes context.nodes
  missing : ∀ name, E (.panic ("no node " ++ name))
  reported : ∀ message, E (.error message)
  soft : ∀ label, Meets E (fun _ => True)
    (context.sourceHasher.softDigest label : Result (Option D))
  start : ∀ node recordRecipe, B node
    (((TargetDigestBuilder.new context.options.trackDeps recordRecipe).direct
      (bytes node.prepared.definitionDigest)).direct (bytes context.seedHash))
  direct : ∀ {node builder}, B node builder → ∀ fed, B node (builder.direct fed)
  source : ∀ {node builder}, B node builder → ∀ label (d : D), B node (builder.source label d)
  transitive : ∀ {node builder}, B node builder → ∀ label canonical (d : D),
    B node (builder.transitive label canonical d)
  shared : ∀ {node builder}, B node builder → ∀ labels labelBytes fed,
    B node (builder.shared labels labelBytes fed)
  finish : ∀ {name : String} {node builder} {state : HashState D}, context.nodes[name]? = some node →
    B node builder → J state.digests state.recorder →
    J (HashContext.finishNode state node.rule.name builder).1.digests
      (HashContext.finishNode state node.rule.name builder).1.recorder

namespace Walk

variable {context : HashContext D} {E : Failure → Prop}
  {J : StringMap (TargetDigest D) → Option RecipeRecorder → Prop}
  {B : RuleNode D → TargetDigestBuilder → Prop} {rules : Labels D}

/-- The invariant at a state, in a run that started from the table `rules`: the walk gives
labels source digests and leaves the nodes they stand for alone. -/
structure Holds (J : StringMap (TargetDigest D) → Option RecipeRecorder → Prop)
    (rules : Labels D) (state : HashState D) : Prop where
  digests : J state.digests state.recorder
  rule : ∀ key, (state.rules.find key).rule = (rules.find key).rule
  replaced : ∀ key, (state.rules.find key).replacedCanonical =
    (rules.find key).replacedCanonical

/-- The invariant at a state, with a builder of the current node. -/
def Fed (J : StringMap (TargetDigest D) → Option RecipeRecorder → Prop)
    (B : RuleNode D → TargetDigestBuilder → Prop) (rules : Labels D) (node : RuleNode D)
    (fed : HashState D × TargetDigestBuilder) : Prop :=
  Holds J rules fed.1 ∧ B node fed.2

omit [HashFunction D] in
theorem Holds.setSource {rules : Labels D} {state : HashState D} (h : Holds J rules state)
    (label : String) (d : D) : Holds J rules (state.setSource label d) where
  digests := h.digests
  rule key := by rw [HashState.rule_setSource, h.rule]
  replaced key := by
    rw [HashState.find_setSource]
    split_ifs with hkey
    · rw [← hkey]
      exact h.replaced label
    · exact h.replaced key

theorem bzlDigest (h : Walk context E J B) {state : HashState D} (hstate : Holds J rules state)
    (path : String) :
    Meets E (fun result => Holds J rules result.1) (context.bzlDigest state path) := by
  rw [HashContext.bzlDigest]
  cases state.bzlDigests[path]? with
  | some cached => exact .ok hstate
  | none =>
      apply Meets.bind (h.soft _)
      intro d _
      exact .ok ⟨hstate.digests, hstate.rule, hstate.replaced⟩

theorem ruleBzlSeed (h : Walk context E J B) {state : HashState D} (hstate : Holds J rules state)
    (rule : Rule) : Meets E (fun result => Holds J rules result.1) (context.ruleBzlSeed state rule) := by
  rw [HashContext.ruleBzlSeed]
  split_ifs
  · exact .ok hstate
  · have hfiles : Meets E (fun fed : HashState D × List UInt8 => Holds J rules fed.1)
        ((HashContext.stackFiles rule).foldlM context.feedStackFile (state, [])) := by
      refine Meets.foldlM ?_ hstate
      rintro path - ⟨state, fed⟩ hfed
      apply Meets.bind (h.bzlDigest hfed path)
      rintro ⟨state, d⟩ hstate
      cases d with
      | none => exact .ok hstate
      | some d => exact .ok hstate
    apply Meets.bind hfiles
    intro fed hfed
    exact .ok hfed

theorem startDigest (h : Walk context E J B) {state : HashState D} (hstate : Holds J rules state)
    (node : RuleNode D) : Meets E (Fed J B rules node) (context.startDigest state node) := by
  have hstart := h.start node state.recorder.isSome
  rw [HashContext.startDigest]
  apply Meets.bind (h.ruleBzlSeed hstate node.rule)
  rintro ⟨state', seed⟩ hstate'
  refine .ok ⟨hstate', ?_⟩
  dsimp only
  cases seed.or context.packageBzlSeeds[labelPackage (targetLabel node.rule.name)]? with
  | none =>
      dsimp only
      split_ifs
      · exact h.direct hstart _
      · exact hstart
  | some packageSeed =>
      have hseeded := h.direct hstart (bytes packageSeed)
      dsimp only
      split_ifs
      · exact h.direct hseeded _
      · exact hseeded

theorem applyRepositoryInputs (h : Walk context E J B) {node : RuleNode D}
    {state : HashState D} {builder : TargetDigestBuilder} (hfed : Fed J B rules node (state, builder))
    {group : RepositoryInputGroup} {fed : HashState D × TargetDigestBuilder}
    (happly : HashContext.applyRepositoryInputs state group builder = some fed) :
    Fed J B rules node fed := by
  obtain ⟨digests, -, happly⟩ := Option.bind_eq_some_iff.mp happly
  obtain rfl := Option.some.inj happly
  exact ⟨⟨hfed.1.digests, hfed.1.rule, hfed.1.replaced⟩, h.shared hfed.2 _ _ _⟩

/-- What the walk knows about the visits it makes from a path. -/
def Visits (E : Failure → Prop)
    (J : StringMap (TargetDigest D) → Option RecipeRecorder → Prop) (rules : Labels D)
    (visit : HashContext.Visit D) (path : List String) : Prop :=
  ∀ name state, Holds J rules state → Meets E (fun result => Holds J rules result.1 ∧
    (name ∉ path → result.1.digests[name]? = some result.2)) (visit name path state)

omit [HashFunction D] in
theorem visitOverall {visit : HashContext.Visit D} {path : List String}
    (hvisit : Visits E J rules visit path) {state : HashState D} (hstate : Holds J rules state)
    (name : String) (prior : Option D) :
    Meets E (fun result => Holds J rules result.1)
      (HashContext.visitOverall visit path state name prior) := by
  rw [HashContext.visitOverall]
  split
  · exact .ok hstate
  · have hresult := hvisit name state hstate
    generalize visit name path state = result at hresult
    cases hresult with
    | error he => exact .error he
    | ok hresult => exact .ok hresult.1

theorem feedInput (h : Walk context E J B) {visit : HashContext.Visit D} {path : List String}
    (hvisit : Visits E J rules visit path) {node : RuleNode D} (inputLabel : String)
    {state : HashState D} {builder : TargetDigestBuilder} (hfed : Fed J B rules node (state, builder))
    (input : Option (Input D)) :
    Meets E (Fed J B rules node)
      (context.feedInput visit node.rule.name path inputLabel state builder input) := by
  rw [HashContext.feedInput]
  split
  · exact .ok ⟨hfed.1, h.source hfed.2 _ _⟩
  · apply Meets.bind (visitOverall hvisit hfed.1 _ _)
    rintro ⟨state, d⟩ hstate
    exact .ok ⟨hstate, h.transitive hfed.2 _ _ _⟩
  · apply Meets.bind (h.soft _)
    intro soft _
    cases soft with
    | none => exact .ok hfed
    | some d => exact .ok ⟨hfed.1.setSource inputLabel d, h.source hfed.2 _ _⟩

theorem inputStep (h : Walk context E J B) {visit : HashContext.Visit D} {path : List String}
    (hvisit : Visits E J rules visit path) {node : RuleNode D}
    {fed : HashState D × TargetDigestBuilder} (hfed : Fed J B rules node fed) (input : String × Nat) :
    Meets E (Fed J B rules node) (context.inputStep visit node path fed input) := by
  obtain ⟨state, builder⟩ := fed
  rw [HashContext.inputStep]
  dsimp only
  generalize HashContext.extensionView state (context.extensionOf node.rule) input.1 = view
  generalize (if view.isSome then none
    else node.inputPositions.bind fun ids => (ids[input.2]?).getD none) = slot
  have hindex : Holds J rules (state.resolveInput (view.getD input.1) (targetLabel (view.getD input.1))
      slot path).1 := by
    have hindexed : Holds J rules state.indexLabels.1 :=
      ⟨hfed.1.digests, hfed.1.rule, hfed.1.replaced⟩
    rw [HashState.resolveInput]
    dsimp only
    split
    · exact hfed.1
    · split
      · exact hfed.1
      · split
        · exact hindexed
        · split_ifs <;> exact hindexed
  exact h.feedInput hvisit _ ⟨hindex, h.direct hfed.2 _⟩ _

theorem visibilityStep (h : Walk context E J B) {visit : HashContext.Visit D}
    {path : List String} (hvisit : Visits E J rules visit path) {node : RuleNode D}
    {fed : HashState D × TargetDigestBuilder} (hfed : Fed J B rules node fed) (packageGroup : String) :
    Meets E (Fed J B rules node) (context.visibilityStep visit node.rule.name path fed packageGroup) := by
  obtain ⟨state, builder⟩ := fed
  rw [HashContext.visibilityStep]
  dsimp only
  split_ifs
  · exact .ok hfed
  · split
    · exact .ok hfed
    · split
      · exact .ok hfed
      · split_ifs
        · exact .ok hfed
        · apply Meets.bind (visitOverall hvisit hfed.1 _ _)
          rintro ⟨state, d⟩ hstate
          exact .ok ⟨hstate, h.transitive (h.direct hfed.2 _) _ _ _⟩

theorem enterNode (h : Walk context E J B) {visit : HashContext.Visit D} {path : List String}
    {name : String} {node : RuleNode D} (hnode : context.nodes[name]? = some node)
    (hvisit : Visits E J rules visit (name :: path)) {state : HashState D} (hstate : Holds J rules state) :
    Meets E (fun result => Holds J rules result.1 ∧ result.1.digests[name]? = some result.2)
      (context.enterNode visit node path state) := by
  obtain rfl := h.keyed hnode
  have hloops : ∀ {fed : HashState D × TargetDigestBuilder} (inputs : List String),
      Fed J B rules node fed → Meets E (fun result : HashState D × TargetDigest D =>
        Holds J rules result.1 ∧ result.1.digests[node.rule.name]? = some result.2) (do
        let fed ← inputs.zipIdx.foldlM
          (context.inputStep visit node (node.rule.name :: path)) fed
        let fed ← (context.visibilityOf node.rule).foldlM
          (context.visibilityStep visit node.rule.name (node.rule.name :: path)) (fed.1, fed.2)
        return HashContext.finishNode fed.1 node.rule.name fed.2) := by
    intro fed inputs hfed
    apply Meets.bind (Meets.foldlM (fun input _ fed hfed => h.inputStep hvisit hfed input) hfed)
    rintro ⟨state, builder⟩ hfed
    apply Meets.bind (Meets.foldlM (fun packageGroup _ fed hfed =>
      h.visibilityStep hvisit hfed packageGroup) hfed)
    rintro ⟨state, builder⟩ hfed
    refine .ok ⟨⟨h.finish hnode hfed.2 hfed.1.digests, hfed.1.rule, hfed.1.replaced⟩, ?_⟩
    simp [HashContext.finishNode]
  rw [HashContext.enterNode]
  dsimp only
  apply Meets.bind (h.startDigest hstate node)
  rintro ⟨state, builder⟩ hfed
  cases node.prepared.sharedInputs with
  | none => exact hloops _ hfed
  | some group =>
      dsimp only
      cases happly : HashContext.applyRepositoryInputs state group builder with
      | none => exact hloops _ hfed
      | some fed => exact hloops _ (h.applyRepositoryInputs hfed happly)

/-- The walk keeps the invariant and never runs out of depth. -/
theorem nodeDigest (h : Walk context E J B) (fuel : Nat) {path : List String}
    (hnodup : path.Nodup) (hpath : ∀ name ∈ path, name ∈ context.nodes)
    (hfuel : context.nodes.size < fuel + path.length) :
    Visits E J rules (context.nodeDigest fuel) path := by
  induction fuel generalizing path with
  | zero =>
      exfalso
      have hsub : path.Subperm context.nodes.keys := List.subperm_of_subset hnodup fun name hname =>
        Std.ExtTreeMap.mem_keys.mpr (hpath name hname)
      have hlength := hsub.length_le
      rw [Std.ExtTreeMap.length_keys] at hlength
      omega
  | succ fuel ih =>
      intro name state hstate
      rw [HashContext.nodeDigest, HashContext.nodeStep]
      cases hdigest : state.digests[name]? with
      | some d => exact .ok ⟨hstate, fun _ => hdigest⟩
      | none =>
          cases hnode : context.nodes[name]? with
          | none => exact .error (h.missing name)
          | some node =>
              dsimp only
              split_ifs with hmem
              · exact .ok ⟨hstate, fun hnot => absurd hmem hnot⟩
              · have hvisit : Visits E J rules (context.nodeDigest fuel) (name :: path) := by
                  apply ih (List.nodup_cons.mpr ⟨hmem, hnodup⟩)
                  · intro later hlater
                    rcases List.mem_cons.mp hlater with rfl | hlater
                    · exact Std.ExtTreeMap.mem_iff_isSome_getElem?.mpr (by rw [hnode]; rfl)
                    · exact hpath later hlater
                  · rw [List.length_cons]
                    omega
                exact (h.enterNode hnode hvisit hstate).mono fun result hresult =>
                  ⟨hresult.1, fun _ => hresult.2⟩

/-- The node a key leads to: its own rule's, or else the one it stands for. -/
def Leads (rules : Labels D) (key name : String) : Prop :=
  (rules.find key).replacedCanonical = some name ∨ (rules.find key).rule = some name

theorem ruleDigest (h : Walk context E J B) {state : HashState D} (hstate : Holds J rules state)
    (key : String) :
    Meets E (fun result => Holds J rules result.1 ∧
      ∃ name, Leads rules key name ∧ result.1.digests[name]? = some result.2)
      (context.ruleDigest state key) := by
  rw [HashContext.ruleDigest_eq]
  cases hprior : state.prior (state.rules.find key) with
  | some d =>
      obtain ⟨name, hname, hd⟩ := Option.bind_eq_some_iff.mp hprior
      exact .ok ⟨hstate, name, Or.inl (hstate.replaced key ▸ hname), hd⟩
  | none =>
      dsimp only
      cases hrule : (state.rules.find key).rule with
      | none => exact .error (h.reported _)
      | some name =>
          have hvisit : Visits E J rules (context.nodeDigest context.depth) [] :=
            h.nodeDigest context.depth List.nodup_nil (by simp) (by simp [HashContext.depth])
          apply (hvisit name state hstate).mono
          rintro ⟨state', d⟩ ⟨hstate', hd⟩
          exact ⟨hstate', name, Or.inr (hstate.rule key ▸ hrule), hd (by simp)⟩

/-- What is known about the digest of a target when `G` is known about every node's. -/
def HashedAs (rules : Labels D) (G : String → TargetDigest D → Prop) (keyed : KeyedDigest D) :
    HashTarget → Prop
  | .rule key => keyed.key = key ∧ keyed.kind = "Rule" ∧
      ∃ name, Leads rules key name ∧ G name keyed.digest
  | .generated name generatingRule => keyed.key = name ∧ keyed.kind = "GeneratedFile" ∧
      ∃ node d, Leads rules generatingRule node ∧ G node d ∧
        keyed.digest.overall = d.overall ∧ keyed.digest.direct = d.direct
  | .source label => keyed.key = label ∧ keyed.kind = "SourceFile"

omit [HashFunction D] in
/-- A target is filed under its own name, with its own kind. -/
theorem HashedAs.key_kind {G : String → TargetDigest D → Prop} {keyed : KeyedDigest D}
    {target : HashTarget} (h : HashedAs rules G keyed target) :
    keyed.key = target.label ∧ keyed.kind = target.kind := by
  cases target with
  | rule name => exact ⟨h.1, h.2.1⟩
  | generated name generatingRule => exact ⟨h.1, h.2.1⟩
  | source name => exact h

/-- A walk over all targets ends with the invariant, and with what it says about each. -/
theorem run {prepared : Prepared D} (h : Walk prepared.context E J B)
    {G : String → TargetDigest D → Prop}
    (hG : ∀ {digests recorder} {name : String} {d}, J digests recorder →
      digests[name]? = some d → G name d)
    (hstate : J prepared.state.digests prepared.state.recorder) :
    Meets E (fun done => Holds J prepared.state.rules done.1 ∧
      List.Forall₂ (HashedAs prepared.state.rules G) done.2 prepared.targets) prepared.run := by
  have hstep : ∀ target (state : HashState D), Holds J prepared.state.rules state →
      Meets E (fun result => Holds J prepared.state.rules result.1 ∧
        HashedAs prepared.state.rules G result.2 target)
        (hashTarget prepared.context state target) := by
    intro target state hstate
    cases target with
    | rule key =>
        apply Meets.bind (h.ruleDigest hstate key)
        rintro ⟨state', d⟩ ⟨hstate', name, hname, hd⟩
        exact .ok ⟨hstate', rfl, rfl, name, hname, hG hstate'.digests hd⟩
    | generated name generatingRule =>
        apply Meets.bind (h.ruleDigest hstate generatingRule)
        rintro ⟨state', d⟩ ⟨hstate', node, hnode, hd⟩
        exact .ok ⟨hstate', rfl, rfl, node, d, hnode, hG hstate'.digests hd, rfl, rfl⟩
    | source label => exact .ok ⟨hstate, rfl, rfl⟩
  apply Meets.foldlM_done (Q := fun done (state : HashState D × List (KeyedDigest D)) =>
    Holds J prepared.state.rules state.1 ∧
      List.Forall₂ (HashedAs prepared.state.rules G) state.2 done)
  · rintro before target after - ⟨state, digests⟩ ⟨hholds, hdone⟩
    apply Meets.bind (hstep target state hholds)
    rintro ⟨state', keyed⟩ ⟨hstate', hkeyed⟩
    exact .ok ⟨hstate', List.rel_append hdone (.cons hkeyed .nil)⟩
  · exact ⟨⟨hstate, fun _ => rfl, fun _ => rfl⟩, .nil⟩

end Walk

/-- When every target is its own label, a target has the entry of its own digest, and there are
no other entries. -/
theorem hashes_of_plain {targets : List HashTarget} {digests : List (KeyedDigest D)}
    (hkeyed : List.Forall₂ (fun keyed target => keyed.key = target.label ∧
      keyed.kind = target.kind) digests targets)
    (hnodup : (targets.map (·.label)).Nodup)
    (hplain : ∀ target ∈ targets, targetLabel target.label = target.label) (trackDeps : Bool) :
    (∀ keyed ∈ digests, (aggregateByLabel digests trackDeps).hashes[keyed.key]? =
      some ⟨keyed.kind, .sha256 keyed.digest.overall, .sha256 keyed.digest.direct⟩) ∧
    ∀ label : String, label ∈ (aggregateByLabel digests trackDeps).hashes →
      label ∈ targets.map (·.label) := by
  have hlabel : ∀ keyed ∈ digests, keyed.label = keyed.key := by
    intro keyed hmem
    obtain ⟨target, htarget, hkey, -⟩ := hkeyed.exists_right hmem
    rw [KeyedDigest.label, hkey, hplain target htarget]
  have hkeys : digests.map (·.key) = targets.map (·.label) := by
    rw [← List.forall₂_eq_eq_eq, List.forall₂_map_left_iff, List.forall₂_map_right_iff]
    exact hkeyed.imp fun _ _ h => h.1
  have hlabels : digests.map (·.label) = targets.map (·.label) := by
    rw [← hkeys]
    exact List.map_congr_left hlabel
  constructor
  · intro keyed hmem
    rw [← hlabel keyed hmem]
    exact hashes_of_nodup_labels (hlabels ▸ hnodup) trackDeps hmem
  · intro label hmem
    obtain ⟨keyed, hkeyed, rfl⟩ := label_of_mem_hashes hmem
    rw [← hlabels]
    exact List.mem_map_of_mem hkeyed

/-! ## The recursion budget -/

section Reads

variable {hasher : SourceHasher} {E : Failure → Prop}
  (hread : ∀ path, Meets E (fun _ => True) (hasher.disk.read path))
  (hreported : ∀ message, E (.error message))

include hread hreported

/-- The content of a file fails to be had only as reading the file fails. -/
theorem SourceHasher.diskContent_meets {label absolute contentKey : String} {materialized : Bool}
    (hfile : (hasher.disk.metadata absolute).toOption.any (·.isFile) = true) :
    Meets E (fun _ => True)
      (hasher.diskContent D label absolute contentKey materialized) := by
  have hcontext : ∀ context,
      Meets E (fun _ => True) (withContext context (hasher.disk.read absolute)) := by
    intro context
    have hcontent := hread absolute
    generalize hasher.disk.read absolute = content at hcontent
    cases hcontent with
    | ok h => exact .ok h
    | @error failure h =>
        cases failure with
        | error message => exact .error (hreported _)
        | _ => exact .error h
  rw [SourceHasher.diskContent]
  split
  · exact .ok trivial
  · rw [if_pos (by simp [hfile])]
    dsimp only
    split
    · exact Meets.bind (hcontext _) fun _ _ => .ok trivial
    · exact Meets.ok trivial

/-- So does the digest of a workspace file that is no target. -/
theorem SourceHasher.softDigest_meets (label : String) :
    Meets E (fun _ => True) (hasher.softDigest label : Result (Option D)) := by
  rw [SourceHasher.softDigest]
  cases hmain : isMainRepo label with
  | false => exact .ok trivial
  | true =>
      obtain ⟨path, hpath⟩ :=
        Option.isSome_iff_exists.mp ((isMainRepo_iff_mainRepoPath label).mp hmain)
      have hresolve : hasher.resolve label false = .ok (some (path, path, false)) := by
        rw [SourceHasher.resolve, hpath]
        rfl
      cases htree : hasher.tree with
      | some tree => exact .ok trivial
      | none =>
          rw [hresolve]
          show Meets E (fun _ => True) (if Option.any _ _ = true then _ else _)
          split
          · next hfile =>
              have hcontent : Meets E (fun _ => True) (hasher.diskContent D label
                  (UnixPath.join hasher.workspace path) path false) :=
                SourceHasher.diskContent_meets hread hreported hfile
              have hdigest : Meets E (fun _ => True)
                  (hasher.digestSource label [] false : Result D) := by
                rw [SourceHasher.digestSource, htree]
                dsimp only
                rw [SourceHasher.diskDigest, hresolve]
                exact hcontent.bind fun _ _ => .ok trivial
              exact hdigest.bind fun _ _ => .ok trivial
          · exact .ok trivial

end Reads

/-- The recursion budget is enough: a walk over all targets fails only with what a file or the
graph reports. -/
theorem Prepared.run_ne_outOfFuel {prepared : Prepared D}
    (hkeyed : KeyedNodes prepared.context.nodes)
    (hread : ∀ path, prepared.context.sourceHasher.disk.read path ≠ .error .outOfFuel) :
    prepared.run ≠ .error .outOfFuel := by
  have hsoft := SourceHasher.softDigest_meets (D := D) (E := (· ≠ .outOfFuel))
    (fun path => Meets.ne_error_iff.mpr (hread path)) fun _ => nofun
  have hwalk : Walk prepared.context (· ≠ .outOfFuel) (fun _ _ => True) (fun _ _ => True) :=
    ⟨hkeyed, fun _ => nofun, fun _ => nofun, hsoft, fun _ _ => trivial, fun _ _ => trivial,
      fun _ _ _ => trivial, fun _ _ _ _ => trivial, fun _ _ _ _ => trivial, fun _ _ _ => trivial⟩
  have hmeets := hwalk.run (G := fun _ _ => True) (fun _ _ => trivial) trivial
  exact Meets.ne_error_iff.mp (hmeets.mono fun _ _ => trivial)

/-! ## Nodes are filed under their names -/

omit [HashFunction D] in
theorem KeyedNodes.insert {nodes : StringMap (RuleNode D)} (h : KeyedNodes nodes)
    {name : String} {node : RuleNode D} (hname : node.rule.name = name) :
    KeyedNodes (nodes.insert name node) := by
  intro name' node' hnode
  rw [Std.ExtTreeMap.getElem?_insert] at hnode
  split_ifs at hnode with hkey
  · obtain rfl := Option.some.inj hnode
    rw [hname, Std.LawfulEqOrd.eq_of_compare hkey]
  · exact h hnode

omit [HashFunction D] in
theorem keyedNodes_takeIn (targets : List Target) (digests : PreparedRules D)
    (recorder : Option RecipeRecorder) : KeyedNodes (takeIn targets digests recorder).nodes := by
  have hadd : ∀ (intake : Intake D) (target : Target), KeyedNodes intake.nodes →
      KeyedNodes (intake.add target).nodes := by
    intro intake target h
    cases hrule : ruleOf target with
    | none => rwa [(intake.add_of_ruleOf_none hrule).2.1]
    | some rule =>
        rw [intake.add_of_ruleOf_some hrule, Intake.addRule]
        dsimp only
        split
        · exact h.insert rfl
        · exact h
  have hfold : ∀ (intake : Intake D), KeyedNodes intake.nodes →
      KeyedNodes (targets.foldl Intake.add intake).nodes := by
    induction targets with
    | nil => exact fun _ h => h
    | cons target rest ih => exact fun intake h => ih _ (hadd intake target h)
  apply hfold
  intro name node hnode
  simp at hnode

theorem keyedNodes_graph {intake : Intake D} (h : KeyedNodes intake.nodes)
    (environment : Environment D) (options : HashOptions) (sources : List (String × D)) :
    KeyedNodes (intake.graph environment options sources).nodes := by
  have hsources : ∀ (sources : List (String × D)) (graph : Graph D),
      (sources.foldl (fun graph source => graph.addSource source.1 source.2) graph).nodes =
        graph.nodes := by
    intro sources
    induction sources with
    | nil => exact fun _ => rfl
    | cons source rest ih => exact fun graph => ih _
  have hdecoded : ∀ (decoded : List Rule) (graph : Graph D), KeyedNodes graph.nodes →
      KeyedNodes (decoded.foldl (·.addDecoded environment options) graph).nodes := by
    intro decoded
    induction decoded with
    | nil => exact fun _ h => h
    | cons rule rest ih => exact fun graph h => ih _ (h.insert rfl)
  apply hdecoded
  rw [hsources]
  exact h

theorem keyedNodes_foldIsolatedRoot {graph graph' : Graph D} {environment : Environment D}
    {options : HashOptions} (h : KeyedNodes graph.nodes)
    (hfold : graph.foldIsolatedRoot environment options = .ok graph') :
    KeyedNodes graph'.nodes := by
  rw [Graph.foldIsolatedRoot] at hfold
  dsimp only at hfold
  split_ifs at hfold
  · cases hfold
    exact h
  · split at hfold
    · cases hfold
    · obtain ⟨⟨key, hub⟩, hhub, hfold⟩ := bind_eq_ok hfold
      obtain ⟨inputs, -, hfold⟩ := bind_eq_ok hfold
      cases hfold
      obtain ⟨k, -, hk⟩ := Option.bind_eq_some_iff.mp (okOr_eq_ok hhub)
      obtain ⟨found, hfound, heq⟩ := Option.map_eq_some_iff.mp hk
      obtain ⟨rfl, rfl⟩ := Prod.mk.inj heq
      have hname : found.rule.name = k := h hfound
      exact KeyedNodes.insert h hname

omit [HashFunction D] in
theorem keyedNodes_prepare {graph : Graph D} (h : KeyedNodes graph.nodes)
    (environment : Environment D) (options : HashOptions) (ready : Bool) :
    KeyedNodes (graph.prepare environment options ready).nodes := by
  rw [Graph.prepare]
  split_ifs
  · intro name node hnode
    rw [Graph.prepareInputs, Std.ExtTreeMap.getElem?_map] at hnode
    obtain ⟨original, horiginal, rfl⟩ := Option.map_eq_some_iff.mp hnode
    have hname : original.rule.name = name := h horiginal
    exact hname
  · exact h

/-- Every traversal starts with its nodes filed under their names. -/
theorem keyedNodes_prepareTargets (options : HashOptions) (targets : List Target)
    (digests : PreparedRules D) (environment : Environment D) :
    Ensures (fun prepared => KeyedNodes prepared.context.nodes)
      (prepareTargets options targets digests environment) := by
  intro prepared h
  rw [prepareTargets] at h
  split_ifs at h
  · cases h
  · obtain ⟨seedHash, -, h⟩ := bind_eq_ok h
    obtain ⟨seeds, -, h⟩ := bind_eq_ok h
    obtain ⟨sources, -, h⟩ := bind_eq_ok h
    obtain ⟨graph, hgraph, h⟩ := bind_eq_ok h
    obtain ⟨aliasing, -, h⟩ := bind_eq_ok h
    cases h
    apply keyedNodes_prepare
    exact keyedNodes_foldIsolatedRoot
      (keyedNodes_graph (keyedNodes_takeIn targets digests _) environment options sources) hgraph

end BazelDiff
