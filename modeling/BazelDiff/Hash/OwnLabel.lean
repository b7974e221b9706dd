/-
# One entry for every target

Under a plain query a target's name is its label, and the hash file should hold one entry
for every target under that name. A name that ends in a bar and hexadecimal digits is
taken for a configured key, though, and its entry goes to the label before the bar.
-/

import Mathlib.Data.Finset.Max
import Mathlib.Data.List.Induction
import BazelDiff.Hash.DirectHash

namespace BazelDiff

open Text HashFunction Outcome

variable {D : Type} [HashFunction D]

/-- The targets, each under its own name and with its own kind. -/
def ownKinds (targets : List HashTarget) : StringMap String :=
  targets.foldl (fun kinds target => kinds.insert target.label target.kind) ∅

/-- No target is lost or merged: the file has an entry for every target and no other, and it
is the target's own. In partial-graph mode the entries are what the recipes evaluate to when
every target is asked for under its own name. -/
structure OneEntryEach (options : HashOptions) (targets : List HashTarget) (state : HashState D)
    (keyed : List (KeyedDigest D)) (file : HashFileData D) : Prop where
  labels : ∀ label, label ∈ file.hashes ↔ ∃ target ∈ targets, target.label = label
  own : options.partialTree = none → List.Forall₂ (fun keyed target =>
    file.hashes[HashTarget.label target]? = some ⟨target.kind, .sha256 keyed.digest.overall,
      .sha256 keyed.digest.direct⟩) keyed targets
  evaluated : ∀ recorder tree, state.recorder = some recorder →
    options.partialTree = some tree →
    evaluate recorder.finish (ownKinds targets) tree = .ok file.hashes

omit [HashFunction D] in
theorem ownKinds_eq_some_iff {targets : List HashTarget} (hnodup : (targets.map (·.label)).Nodup)
    {label kind : String} :
    (ownKinds targets)[label]? = some kind ↔
      ∃ target ∈ targets, target.label = label ∧ target.kind = kind := by
  induction targets using List.reverseRecOn with
  | nil => simp [ownKinds]
  | append_singleton rest last ih =>
      rw [List.map_append, List.nodup_append_comm] at hnodup
      obtain ⟨hfresh, hrest⟩ := List.nodup_cons.mp hnodup
      have hinsert : ownKinds (rest ++ [last]) = (ownKinds rest).insert last.label last.kind := by
        rw [ownKinds, List.foldl_append]
        rfl
      rw [hinsert, Std.ExtTreeMap.getElem?_insert]
      by_cases hlabel : last.label = label
      · subst hlabel
        rw [if_pos Std.ReflOrd.compare_self, Option.some.injEq]
        constructor
        · exact fun hkind => ⟨last, by simp, rfl, hkind⟩
        · rintro ⟨target, htarget, hsame, rfl⟩
          rcases List.mem_append.mp htarget with htarget | htarget
          · exact absurd (List.mem_map.mpr ⟨target, htarget, hsame⟩) hfresh
          · rw [List.mem_singleton.mp htarget]
      · rw [if_neg fun hc => hlabel (Std.LawfulEqOrd.eq_of_compare hc), ih hrest]
        constructor
        · rintro ⟨target, htarget, hsame⟩
          exact ⟨target, List.mem_append_left _ htarget, hsame⟩
        · rintro ⟨target, htarget, hsame⟩
          rcases List.mem_append.mp htarget with htarget | htarget
          · exact ⟨target, htarget, hsame⟩
          · rw [List.mem_singleton.mp htarget] at hsame
            exact absurd hsame.1 hlabel

/-- A set of names whose labels are the same set has every name for its own label: a label is
shorter than a name it differs from, so a longest name that is no label would be missed. -/
theorem targetLabel_eq_of_labels {items : List String}
    (h : ∀ name ∈ items, ∃ other ∈ items, targetLabel other = name) :
    ∀ name ∈ items, targetLabel name = name := by
  by_contra hnot
  push Not at hnot
  obtain ⟨name, hname, hbad⟩ := hnot
  have hnonempty : (items.toFinset.filter fun name => targetLabel name ≠ name).Nonempty :=
    ⟨name, by simp [hname, hbad]⟩
  obtain ⟨longest, hlongest, hmax⟩ :=
    Finset.exists_max_image _ (fun name => name.toList.length) hnonempty
  rw [Finset.mem_filter, List.mem_toFinset] at hlongest
  obtain ⟨other, hother, hlabel⟩ := h longest hlongest.1
  rcases targetLabel_eq_or_length_lt other with hself | hlt
  · rw [hself] at hlabel
    exact hlongest.2 (hlabel ▸ hself)
  · have hbadOther : targetLabel other ≠ other := fun hself => absurd hlt (by rw [hself]; omega)
    have hle := hmax other (by simp [hother, hbadOther])
    rw [hlabel] at hlt
    omega

omit [HashFunction D] in
theorem mem_targetKinds (hashes : StringMap (TargetHash D)) (label : String) :
    label ∈ targetKinds hashes ↔ label ∈ hashes := by
  rw [targetKinds, Std.ExtTreeMap.mem_map]

/-- When every target is its own label, the entries and their kinds are the targets' own. -/
theorem entries_of_plain {targets : List HashTarget} {digests : List (KeyedDigest D)}
    (hkeyed : List.Forall₂ (fun keyed target => keyed.key = target.label ∧
      keyed.kind = target.kind) digests targets)
    (hnodup : (targets.map (·.label)).Nodup)
    (hplain : ∀ target ∈ targets, targetLabel target.label = target.label) (trackDeps : Bool) :
    List.Forall₂ (fun keyed target =>
      (aggregateByLabel digests trackDeps).hashes[HashTarget.label target]? =
        some ⟨target.kind, .sha256 keyed.digest.overall, .sha256 keyed.digest.direct⟩)
      digests targets ∧
    targetKinds (aggregateByLabel digests trackDeps).hashes = ownKinds targets := by
  obtain ⟨hentry, hother⟩ := hashes_of_plain hkeyed hnodup hplain trackDeps
  have hown : List.Forall₂ (fun keyed target =>
      (aggregateByLabel digests trackDeps).hashes[HashTarget.label target]? =
        some ⟨target.kind, .sha256 keyed.digest.overall, .sha256 keyed.digest.direct⟩)
      digests targets := by
    rw [List.forall₂_iff_zip]
    refine ⟨hkeyed.length_eq, fun {own target} hpair => ?_⟩
    obtain ⟨hkey, hkind⟩ := List.forall₂_zip hkeyed hpair
    rw [← hkey, ← hkind]
    exact hentry own (List.of_mem_zip hpair).1
  refine ⟨hown, Std.ExtTreeMap.ext_getElem? fun label => Option.ext fun kind => ?_⟩
  rw [ownKinds_eq_some_iff hnodup, targetKinds, Std.ExtTreeMap.getElem?_map]
  constructor
  · intro hkind
    obtain ⟨hash, hhash, -⟩ := Option.map_eq_some_iff.mp hkind
    obtain ⟨target, htarget, rfl⟩ := List.mem_map.mp
      (hother label (Std.ExtTreeMap.mem_iff_isSome_getElem?.mpr (by rw [hhash]; rfl)))
    obtain ⟨own, -, hentry⟩ := hown.exists_left htarget
    rw [hentry] at hkind
    exact ⟨target, htarget, rfl, Option.some.inj hkind⟩
  · rintro ⟨target, htarget, rfl, rfl⟩
    obtain ⟨own, -, hentry⟩ := hown.exists_left htarget
    rw [hentry]
    rfl

/-- The entries of a finished file are the labels of the targets, in either mode. -/
theorem mem_hashFile {options : HashOptions} {environment : Environment D} {state : HashState D}
    {keyed : List (KeyedDigest D)} {file : HashFileData D}
    (h : hashFile options environment state keyed = .ok file) (label : String) :
    label ∈ file.hashes ↔ label ∈ (aggregateByLabel keyed options.trackDeps).hashes := by
  rw [hashFile] at h
  dsimp only at h
  split at h
  · obtain ⟨hashes, hhashes, h⟩ := bind_eq_ok h
    cases h
    dsimp only
    rw [← mem_targetKinds hashes, targetKinds_evaluate hhashes, mem_targetKinds]
  · cases h
    rfl

/-- In plain query mode the targets keep their own entries exactly when no name looks like a
configured key. -/
theorem oneEntryEach_iff {options : HashOptions} {targets : List Target}
    (hnodup : (names targets).Nodup) {digests : PreparedRules D} {environment : Environment D}
    {file : HashFileData D}
    (h : hashTargetsWithEnvironment options targets digests environment = .ok file) :
    ∃ prepared state keyed, prepareTargets options targets digests environment = .ok prepared ∧
      prepared.run = .ok (state, keyed) ∧
      prepared.targets = sortedTargets (targets.filterMap hashTargetOf) ∧
      (OneEntryEach options prepared.targets state keyed file ↔
        ∀ target ∈ prepared.targets, targetLabel target.label = target.label) := by
  obtain ⟨prepared, hprepared, h⟩ := bind_eq_ok h
  obtain ⟨⟨state, keyed⟩, hrun, h⟩ := bind_eq_ok h
  change hashFile options environment state keyed = .ok file at h
  have htargets : prepared.targets = sortedTargets (targets.filterMap hashTargetOf) := by
    obtain ⟨seedHash, seeds, sources, graph, aliasing, -, -, -, -, -, -, -, -, -, htargets⟩ :=
      prepareTargets_ok hprepared
    exact htargets
  have hdistinct : (prepared.targets.map (·.label)).Nodup :=
    htargets ▸ (sortedTargets_labels targets).2 hnodup
  have hkeyed : List.Forall₂ (fun keyed target => keyed.key = HashTarget.label target ∧
      keyed.kind = target.kind) keyed prepared.targets := by
    rw [htargets]
    exact (run_fromDefinitions hnodup hprepared hrun).2.imp fun _ _ h => ⟨h.1, h.2.1⟩
  refine ⟨prepared, state, keyed, hprepared, hrun, htargets, ?_, ?_⟩
  · intro hentries
    have hlabels : ∀ name ∈ prepared.targets.map (·.label),
        ∃ other ∈ prepared.targets.map (·.label), targetLabel other = name := by
      intro name hname
      obtain ⟨target, htarget, rfl⟩ := List.mem_map.mp hname
      have hmem := (hentries.labels target.label).mpr ⟨target, htarget, rfl⟩
      obtain ⟨found, hfound, hlabel⟩ := label_of_mem_hashes ((mem_hashFile h _).mp hmem)
      obtain ⟨other, hother, hkey, -⟩ := hkeyed.exists_right hfound
      exact ⟨other.label, List.mem_map_of_mem hother, by rw [← hkey]; exact hlabel⟩
    exact fun target htarget => targetLabel_eq_of_labels hlabels _ (List.mem_map_of_mem htarget)
  · intro hplain
    obtain ⟨hown, hkinds⟩ := entries_of_plain hkeyed hdistinct hplain options.trackDeps
    have hlabels : ∀ label, label ∈ file.hashes ↔ ∃ target ∈ prepared.targets,
        target.label = label := by
      intro label
      rw [mem_hashFile h, ← mem_targetKinds, hkinds, Std.ExtTreeMap.mem_iff_isSome_getElem?,
        Option.isSome_iff_exists]
      simp only [ownKinds_eq_some_iff hdistinct]
      constructor
      · rintro ⟨kind, target, htarget, hlabel, -⟩
        exact ⟨target, htarget, hlabel⟩
      · rintro ⟨target, htarget, hlabel⟩
        exact ⟨target.kind, target, htarget, hlabel, rfl⟩
    rw [hashFile] at h
    dsimp only at h
    refine ⟨hlabels, fun htree => ?_, fun recorder tree hrecorder htree => ?_⟩
    · rw [htree] at h
      cases hrecorder : state.recorder with
      | none =>
          rw [hrecorder] at h
          cases h
          exact hown
      | some recorder =>
          rw [hrecorder] at h
          cases h
          exact hown
    · rw [hrecorder, htree, hkinds] at h
      obtain ⟨hashes, hhashes, h⟩ := bind_eq_ok h
      cases h
      exact hhashes

/-- Targets with a bar in a name that does not end in hexadecimal digits. -/
def oddTargets : List Target :=
  [{ type := .rule, rule := some { name := "//p:odd|name", ruleClass := "genrule" } },
    { type := .generatedFile, generatedFile := some ⟨"//p:odd", "//p:odd|name"⟩ }]

theorem oneEntryEach_odd : ∃ (prepared : Prepared Preimage) (state : HashState Preimage)
    (keyed : List (KeyedDigest Preimage)) (file : HashFileData Preimage),
    hashTargetsWithEnvironment {} oddTargets SlotTable.empty Environment.bare = .ok file ∧
    prepared.run = .ok (state, keyed) ∧
    OneEntryEach {} prepared.targets state keyed file := by
  have hruns : (hashTargetsWithEnvironment {} oddTargets SlotTable.empty
      Environment.bare).toBool = true := by
    decide +kernel
  obtain ⟨file, hfile⟩ : ∃ file, hashTargetsWithEnvironment {} oddTargets SlotTable.empty
      Environment.bare = .ok file := by
    cases hfile : hashTargetsWithEnvironment {} oddTargets SlotTable.empty Environment.bare with
    | error failure => simp [hfile, Except.toBool] at hruns
    | ok file => exact ⟨file, rfl⟩
  obtain ⟨prepared, state, keyed, -, hrun, htargets, hiff⟩ := oneEntryEach_iff (by decide) hfile
  refine ⟨prepared, state, keyed, file, hfile, hrun, hiff.mpr ?_⟩
  rw [htargets]
  decide

/-- A target whose name ends in a bar and hexadecimal digits. -/
def barredTargets : List Target :=
  [{ type := .rule, rule := some { name := "//p:a", ruleClass := "genrule" } },
    { type := .rule, rule := some { name := "//p:a|b1", ruleClass := "genrule" } }]

/-- A target with a bar in its name is merged into another one. -/
theorem barredTargets_merged :
    (names barredTargets).Nodup ∧ ∃ prepared state keyed file,
      prepareTargets {} barredTargets SlotTable.empty Environment.bare = .ok prepared ∧
      prepared.run = .ok (state, keyed) ∧
      hashTargetsWithEnvironment {} barredTargets SlotTable.empty Environment.bare = .ok file ∧
      file.hashes.toList.map Prod.fst = ["//p:a"] ∧
      ¬ OneEntryEach {} prepared.targets state keyed file := by
  have hkeys : (do
      let prepared ← prepareTargets {} barredTargets SlotTable.empty Environment.bare
      let (state, keyed) ← prepared.run
      let file ← hashFile {} Environment.bare state keyed
      return (prepared.targets, file.hashes.toList.map Prod.fst)) =
        .ok ([.rule "//p:a", .rule "//p:a|b1"], ["//p:a"]) := by
    decide +kernel
  obtain ⟨prepared, hprepared, hkeys⟩ := bind_eq_ok hkeys
  obtain ⟨⟨state, keyed⟩, hrun, hkeys⟩ := bind_eq_ok hkeys
  obtain ⟨file, hfile, hkeys⟩ := bind_eq_ok hkeys
  obtain ⟨htargets, hlabels⟩ := Prod.mk.inj (Except.ok.inj hkeys)
  refine ⟨by decide, prepared, state, keyed, file, hprepared, hrun, ?_, hlabels, fun h => ?_⟩
  · rw [hashTargetsWithEnvironment, hprepared]
    change (do
      let (state, digests) ← prepared.run
      hashFile {} Environment.bare state digests) = .ok file
    rw [hrun]
    exact hfile
  · have hmem := (h.labels "//p:a|b1").mpr ⟨.rule "//p:a|b1", by rw [htargets]; simp, rfl⟩
    rw [← Std.ExtTreeMap.mem_keys, ← Std.ExtTreeMap.map_fst_toList_eq_keys, hlabels] at hmem
    exact absurd hmem (by decide)

end BazelDiff
