/-
# The hashes of a generation

What a generation over a graph without cycles computes, said without the traversal. The
prepared table determines the pieces of every rule; a rule has the hash of its pieces, and a
target that of the rule it stands for. There is one such assignment of hashes, so the order of
the targets, the memo, the inputs fed as one and the sources found on the way cannot be told
from the result.
-/

import BazelDiff.Hash.Materialized
import BazelDiff.Hash.KeyIndex
import BazelDiff.Hash.Meaning

namespace BazelDiff

open Text HashFunction HashGraph Outcome Relation

variable {D : Type} [HashFunction D]

/-- The labels that hubs share carry no configuration. -/
def SharesPlain (digests : PreparedRules D) : Prop :=
  ∀ ⦃name : String⦄ ⦃rule : PreparedRule D⦄ ⦃group : RepositoryInputGroup⦄,
    digests.find name = some rule → rule.sharedInputs = some group →
      ∀ label ∈ group.labels, targetLabel label = label

/-- What a generation hands over of lowered repositories: targets with names of their own, and
shared inputs as a walk needs them. -/
theorem sharing_lowered (options : HashOptions) (lowering : Lowering)
    (repositories : List Repository) (queried : List (List Target)) (environment : Environment D)
    (hfiled : SharesAsFiled (lowering.lowerRepositories repositories) queried.flatten)
    (hnames : ∀ repository ∈ repositories, ∀ name ∈ lowering.nodeNames repository.canonical,
      '|' ∉ name.toList) {targets : List Target} {digests : PreparedRules D}
    (h : handedOver options (sharedBatches (lowering.lowerRepositories repositories))
      (unsharedBatches queried) environment = (targets, digests)) :
    (names targets).Nodup ∧ SharedGroups digests ∧ SharesAsHubs digests targets ∧
      SharesPlain digests := by
  have hgroups : SharedGroups (handedOver options
      (sharedBatches (lowering.lowerRepositories repositories)) (unsharedBatches queried)
      environment).2 := by
    refine sharedGroups_lowered environment.encode options (environment.workspace options)
      lowering repositories fun batch hbatch => ?_
    obtain ⟨records, -, rfl⟩ := List.mem_map.mp hbatch
    rfl
  obtain ⟨kept, hkept, -, hhubs⟩ := kept_materialized (D := D) lowering repositories hfiled
  rw [h] at hgroups
  rw [handedOver_shared, ← hkept] at h
  obtain ⟨rfl, rfl⟩ := Prod.mk.inj h
  refine ⟨?_, hgroups, hhubs, ?_⟩
  · rw [hkept]
    exact nodup_names_deduplicateTargets _
  · intro name rule group hrule hgroup label hlabel
    -- A group comes from the lowering, where it lists siblings by their nodes.
    have hlast := @find_filedRecords D _ options environment (lowering.lowerRepositories repositories)
      queried.flatten name
    rw [hrule, Option.bind_some, hgroup] at hlast
    obtain ⟨record, hrecord, hshared⟩ := Option.bind_eq_some_iff.mp hlast.symm
    have hmem := List.mem_reverse.mp (List.mem_of_find?_eq_some hrecord)
    rcases List.mem_append.mp hmem with hlowered | hqueried
    · obtain ⟨siblings, hsiblings, hlabels⟩ :=
        Lowering.group_of_mem_lowerRepositories hlowered hshared
      rw [hlabels] at hlabel
      obtain ⟨sibling, hsibling, rfl⟩ := List.mem_map.mp hlabel
      obtain ⟨repository, hrepository, hname⟩ :=
        Lowering.nodeNames_of_mem_extensionSpokes hsiblings (Std.ExtTreeSet.mem_toList.mp hsibling)
      have hbar : '|' ∉ (externalLabel sibling).toList := by
        rw [externalLabel, String.toList_append, List.mem_append, not_or]
        exact ⟨by decide, hnames repository hrepository sibling hname⟩
      exact targetLabel_of_notMem hbar
    · obtain ⟨target, -, rfl⟩ := List.mem_map.mp hqueried
      cases hshared

section Start

variable {options : HashOptions} {targets : List Target} {digests : PreparedRules D}
  {environment : Environment D} {prepared : Prepared D}

/-- A traversal starts without digests of Starlark files. -/
theorem start_bzlDigests (h : prepareTargets options targets digests environment = .ok prepared) :
    prepared.state.bzlDigests = ∅ := by
  rw [prepareTargets] at h
  split_ifs at h
  · cases h
  · obtain ⟨seedHash, -, h⟩ := bind_eq_ok h
    obtain ⟨seeds, -, h⟩ := bind_eq_ok h
    obtain ⟨sources, -, h⟩ := bind_eq_ok h
    obtain ⟨graph, -, h⟩ := bind_eq_ok h
    obtain ⟨aliasing, -, h⟩ := bind_eq_ok h
    cases h
    rfl

/-- A traversal starts with no digests at all. -/
theorem start_digests (h : prepareTargets options targets digests environment = .ok prepared) :
    prepared.state.digests = ∅ := by
  obtain ⟨seedHash, seeds, sources, graph, aliasing, -, -, -, -, -, -, -, hdigests, -⟩ :=
    prepareTargets_ok h
  exact hdigests

/-- A source target starts with the digest of its content. -/
theorem start_source (h : prepareTargets options targets digests environment = .ok prepared)
    {label : String} (hlabel : .source label ∈ prepared.targets) :
    (prepared.state.rules.find label).source.isSome = true := by
  rw [((start_sources h).2 label)]
  obtain ⟨seedHash, seeds, sources, graph, aliasing, -, -, -, -, -, -, -, -, -, htargets⟩ :=
    prepareTargets_ok h
  rw [htargets, sortedTargets, List.mem_insertionSort] at hlabel
  obtain ⟨target, htarget, hhashed⟩ := List.mem_filterMap.mp hlabel
  rw [hashTargetOf] at hhashed
  split at hhashed
  · obtain ⟨rule, -, heq⟩ := Option.map_eq_some_iff.mp hhashed
    cases heq
  · obtain ⟨file, -, heq⟩ := Option.map_eq_some_iff.mp hhashed
    cases heq
  · next htype =>
      obtain ⟨source, hsource, heq⟩ := Option.map_eq_some_iff.mp hhashed
      cases heq
      refine List.mem_map.mpr ⟨⟨source.name, source.subinclude⟩, List.mem_map.mpr ⟨source, ?_, rfl⟩,
        rfl⟩
      exact List.mem_filterMap.mpr ⟨target, htarget, by rw [sourceOf, if_pos htype, hsource]⟩
  · cases hhashed

variable (hnodup : (names targets).Nodup) (hgroups : SharedGroups digests)
  (hhubs : SharesAsHubs digests targets)
  (h : prepareTargets options targets digests environment = .ok prepared)

include hnodup hgroups hhubs h

/-- The graph can be read off the start of a traversal. -/
theorem startOk_of_prepareTargets (hplain : SharesPlain digests) :
    StartOk prepared.context prepared.state := by
  obtain ⟨-, -, nodes', hunshares, -, -⟩ :=
    (prepareTargets_materialized hnodup hgroups hhubs).ok_left h
  have hnode : ∀ {name : String} {node : RuleNode D}, prepared.context.nodes[name]? = some node →
      ∃ rule, findRule targets name = some rule ∧ NodeFrom digests rule node := by
    intro name node hnode
    have hrel := start_nodes hnodup h name
    rw [hnode] at hrel
    cases hrule : findRule targets name with
    | none =>
        rw [hrule] at hrel
        cases hrel
    | some rule =>
        rw [hrule] at hrel
        cases hrel with
        | some hfrom => exact ⟨rule, rfl, hfrom⟩
  refine ⟨hunshares.keyed, ?_, indexOk_of_instances (start_instances h), hunshares.groups, ?_⟩
  · intro name node hname
    obtain ⟨rule, hrule, -⟩ := hnode hname
    exact (start_slot hnodup h hrule).1
  · intro name node group hname hgroup
    obtain ⟨rule, hrule, hfrom⟩ := hnode hname
    obtain ⟨found, hfound, hshared⟩ := Option.bind_eq_some_iff.mp (hfrom.shared ▸ hgroup)
    have hrel := hunshares.nodes name
    rw [hname] at hrel
    cases hwritten : nodes'[name]? with
    | none =>
        rw [hwritten] at hrel
        cases hrel
    | some written =>
        rw [hwritten] at hrel
        cases hrel with
        | some hunshared =>
            obtain ⟨hinputs, hviews, -⟩ := hunshared.hub group hgroup
            exact ⟨hinputs, hviews, hplain hfound hshared⟩

/-- A traversal starts sound. -/
theorem sound_start : MerkleState prepared.context prepared.state prepared.state := by
  obtain ⟨-, -, nodes', -, hstart, -⟩ :=
    (prepareTargets_materialized hnodup hgroups hhubs).ok_left h
  have hnone : ∀ name, hashesOf prepared.state.digests name = none := by
    intro name
    rw [hashesOf, start_digests h]
    simp
  refine ⟨⟨fun _ => rfl, hstart.replaced, rfl, fun _ => Or.inl rfl, hstart.positions⟩, ?_, ?_, ?_⟩
  · intro path d hd
    rw [start_bzlDigests h] at hd
    simp at hd
  · refine ⟨fun hhash => ?_, fun hhash => ?_, fun hhash => ?_⟩ <;>
      rw [hnone] at hhash <;> cases hhash
  · intro name node group entry _ _ hentry
    rw [start_repositoryInputDigests h] at hentry
    simp at hentry

end Start

omit [HashFunction D] in
/-- Finitely many rules are finished. -/
theorem finite_hashesOf (digests : StringMap (TargetDigest D)) :
    {name | (hashesOf digests name).isSome = true}.Finite := by
  refine (digests.keys.finite_toSet).subset fun name hname => ?_
  rw [Set.mem_ofPred_eq, hashesOf, Option.isSome_map] at hname
  exact Std.ExtTreeMap.mem_keys.mpr (Std.ExtTreeMap.mem_iff_isSome_getElem?.mpr hname)

/-- A generation over a graph without cycles files every target with the hash of its pieces,
and there is one hash a rule can have; it fails only as a file or the graph does. -/
theorem run_merkle {options : HashOptions} {targets : List Target} {digests : PreparedRules D}
    {environment : Environment D} {prepared : Prepared D} (hnodup : (names targets).Nodup)
    (hgroups : SharedGroups digests) (hhubs : SharesAsHubs digests targets)
    (hplain : SharesPlain digests)
    (h : prepareTargets options targets digests environment = .ok prepared)
    (hacyclic : Acyclic prepared.context prepared.state) :
    Ensures (fun done => ∃ hashes : String → Option (Hashes D),
      Merkle (prepared.context.pieces prepared.state) (prepared.context.content prepared.state)
        hashes ∧
      List.Forall₂ (Means prepared.context prepared.state hashes) done.2 prepared.targets ∧
      ∀ hashes', Merkle (prepared.context.pieces prepared.state)
        (prepared.context.content prepared.state) hashes' →
        ∀ name a b, hashes name = some a → hashes' name = some b → a = b) prepared.run ∧
    ((∀ path, environment.disk.read path ≠ .error .outOfFuel) →
      prepared.run ≠ .error .outOfFuel) := by
  have hstart := startOk_of_prepareTargets hnodup hgroups hhubs h hplain
  constructor
  · have hrun := run_means hstart hacyclic (sound_start hnodup hgroups hhubs h)
      fun label hlabel => start_source h hlabel
    refine hrun.mono ?_
    rintro ⟨state, keyed⟩ ⟨hsound, hmeans⟩
    refine ⟨hashesOf state.digests, hsound.hashed, hmeans,
      fun hashes' hhashed name a b ha hb => ?_⟩
    exact hsound.hashed.unique hhashed hacyclic (finite_hashesOf state.digests) ha hb
  · intro hread
    have hdisk : prepared.context.sourceHasher.disk = environment.disk := by
      obtain ⟨seedHash, seeds, sources, graph, aliasing, -, -, -, -, -, hcontext, -⟩ :=
        prepareTargets_ok h
      rw [hcontext]
      rfl
    exact Prepared.run_ne_outOfFuel hstart.keyed fun path => hdisk ▸ hread path

/-! ## A small graph -/

/-- The edges of a run, as a list. -/
def pieceEdges (prepared : Prepared D) : List (String × String) :=
  prepared.context.nodes.toList.flatMap fun entry =>
    (prepared.context.rulePieces prepared.state entry.2).filterMap fun
      | .node target => some (entry.1, target)
      | _ => none

theorem mem_pieceEdges {prepared : Prepared D} {name target : String}
    (h : Leads (prepared.context.pieces prepared.state) name target) :
    (name, target) ∈ pieceEdges prepared := by
  rw [Leads, HashContext.pieces] at h
  cases hnode : prepared.context.nodes[name]? with
  | none =>
      rw [hnode] at h
      cases h
  | some node =>
      rw [hnode] at h
      refine List.mem_flatMap.mpr ⟨(name, node),
        Std.ExtTreeMap.mem_toList_iff_getElem?_eq_some.mpr hnode, ?_⟩
      exact List.mem_filterMap.mpr ⟨.node target, h, rfl⟩

/-- A run has no cycle if its edges go down in rank. -/
theorem acyclic_of_pieceEdges {prepared : Prepared D} (rank : String → Nat)
    (h : ∀ edge ∈ pieceEdges prepared, rank edge.2 < rank edge.1) :
    Acyclic prepared.context prepared.state :=
  acyclic_of_rank rank fun _ _ hleads => h _ (mem_pieceEdges hleads)

/-- A rule that reads a generated file, the rule behind that, which reads a source, and a rule
that reads the hub of an extension with one hidden repository. -/
def chainTargets : List Target :=
  [{ type := .rule
     rule := some { name := "//p:a", ruleClass := "genrule", ruleInput := ["//p:out"] } },
   { type := .rule
     rule := some { name := "//p:gen", ruleClass := "genrule", ruleInput := ["//p:s.txt"]
                    instantiationStack := ["p/BUILD:1"] } },
   { type := .rule
     rule := some { name := "//p:z", ruleClass := "genrule", ruleInput := ["//external:hub"] } },
   { type := .rule, rule := some { name := "//external:hub", ruleClass := "bzlmod_repo" } },
   { type := .rule, rule := some { name := "//external:spoke", ruleClass := "bzlmod_repo" } },
   { type := .generatedFile, generatedFile := some ⟨"//p:out", "//p:gen"⟩ },
   { type := .sourceFile, sourceFile := some { name := "//p:s.txt" } }]

/-- What the hub is prepared with: it shares the hidden repository of its extension. -/
def chainHub : PreparedRule Preimage :=
  { definitionDigest := digest [], sharedInputs := some ⟨"hubs", ["//external:spoke"]⟩ }

def chainDigests : PreparedRules Preimage :=
  PreparedRules.extend SlotTable.empty [("//external:hub", chainHub)]

/-- Options with a content hash for the source. -/
def chainOptions (content : String) : HashOptions :=
  { contentHashes := some ((∅ : StringMap String).insert "p/s.txt" content) }

theorem find_chainDigests {name : String} {rule : PreparedRule Preimage}
    (h : chainDigests.find name = some rule) : name = "//external:hub" ∧ rule = chainHub := by
  rw [chainDigests, PreparedRules.extend, List.foldl_cons, List.foldl_nil,
    SlotTable.find_update] at h
  split_ifs at h with hname
  · exact ⟨hname.symm, (Option.some.inj h).symm⟩
  · rw [SlotTable.find_empty] at h
    cases h

/-- Records share as the lowering of repositories has them share, when the hub reads nothing
else. -/
theorem sharing_chainDigests (targets : List Target)
    (hinputs : ∀ rule ∈ targets.filterMap ruleOf, rule.name = "//external:hub" →
      rule.ruleInput = [] ∧ rule.configuredRuleInput = []) :
    SharedGroups chainDigests ∧ SharesAsHubs chainDigests targets ∧ SharesPlain chainDigests := by
  have hgroup : ∀ {name rule group}, chainDigests.find name = some rule →
      rule.sharedInputs = some group → group = ⟨"hubs", ["//external:spoke"]⟩ := by
    intro name rule group hrule hgroup
    obtain ⟨-, rfl⟩ := find_chainDigests hrule
    exact (Option.some.inj hgroup).symm
  refine ⟨fun name name' rule rule' group group' hrule hrule' hsome hsome' _ => ?_,
    fun target htarget rule group hrule hsome => ?_, fun name rule group hrule hsome => ?_⟩
  · rw [hgroup hrule hsome, hgroup hrule' hsome']
  · obtain ⟨found, hfound, hprepared⟩ := Option.bind_eq_some_iff.mp hsome
    obtain ⟨prepared, hname, hshared⟩ := Option.bind_eq_some_iff.mp hprepared
    rw [hrule] at hfound
    obtain rfl := Option.some.inj hfound
    obtain rfl := hgroup hname hshared
    have hhub := (find_chainDigests hname).1
    obtain ⟨hnone, hunconfigured⟩ :=
      hinputs rule (List.mem_filterMap.mpr ⟨target, htarget, hrule⟩) hhub
    refine ⟨hnone, hunconfigured, ?_, ?_, by decide +kernel, by simp⟩
    · rw [hhub]
      decide +kernel
    · rw [hhub]
      decide +kernel
  · obtain rfl := hgroup hrule hsome
    decide +kernel

theorem sharing_chain : SharedGroups chainDigests ∧ SharesAsHubs chainDigests chainTargets ∧
    SharesPlain chainDigests :=
  sharing_chainDigests chainTargets (by decide +kernel)

theorem chain_prepared (content : String) (hcontent : content = "old" ∨ content = "new") :
    ∃ prepared : Prepared Preimage, prepareTargets (chainOptions content) chainTargets
      chainDigests Environment.bare = .ok prepared ∧
      Acyclic prepared.context prepared.state := by
  have hshape : (do
      let prepared ← prepareTargets (chainOptions content) chainTargets chainDigests
        Environment.bare
      return pieceEdges prepared) = .ok [("//external:hub", "//external:spoke"),
        ("//p:a", "//p:gen"), ("//p:z", "//external:hub")] := by
    rcases hcontent with rfl | rfl <;> decide +kernel
  obtain ⟨prepared, hprepared, hedges⟩ := bind_eq_ok hshape
  refine ⟨prepared, hprepared, acyclic_of_pieceEdges
    (fun name => if name = "//p:z" then 2 else if name = "//p:a" ∨ name = "//external:hub" then 1
      else 0) ?_⟩
  rw [Except.ok.inj hedges]
  decide

/-- The chain is filed with the hashes of its pieces. -/
theorem run_merkle_chain : ∃ prepared : Prepared Preimage,
    prepareTargets (chainOptions "old") chainTargets chainDigests Environment.bare =
      .ok prepared ∧
    Ensures (fun done => ∃ hashes : String → Option (Hashes Preimage),
      Merkle (prepared.context.pieces prepared.state) (prepared.context.content prepared.state)
        hashes ∧
      List.Forall₂ (Means prepared.context prepared.state hashes) done.2 prepared.targets ∧
      ∀ hashes', Merkle (prepared.context.pieces prepared.state)
        (prepared.context.content prepared.state) hashes' →
        ∀ name a b, hashes name = some a → hashes' name = some b → a = b) prepared.run ∧
    prepared.run ≠ .error .outOfFuel := by
  obtain ⟨prepared, hprepared, hacyclic⟩ := chain_prepared "old" (Or.inl rfl)
  obtain ⟨hgroups, hhubs, hplain⟩ := sharing_chain
  obtain ⟨hmerkle, hends⟩ := run_merkle (by decide) hgroups hhubs hplain hprepared hacyclic
  exact ⟨prepared, hprepared, hmerkle, hends fun path => nofun⟩

end BazelDiff
