/-
# Impact is reachability

Two generations over the same records that differ in the contents of sources feed every rule
the same pieces, so they hash one graph with two sets of contents. If the graph has no cycle
and the digest is injective, the labels reported as impacted are exactly those of a target
from which a source with another content can be reached, and a direct hash changes with the
target's own sources only.
-/

import BazelDiff.Hash.Lockstep
import BazelDiff.Hash.Merkle
import BazelDiff.Impact.Endpoints

namespace BazelDiff

open Text HashFunction HashGraph Outcome Relation

variable {D : Type} [HashFunction D]

/-! ## One graph for both runs -/

section Graph

variable {P Q : Prop} {c₁ c₂ : HashContext D} {s₁ s₂ : HashState D}

/-- A file has a content in both runs or in neither. -/
theorem softContent_related (hc : ContextRel P c₁ c₂) (label : String) :
    Option.Rel (AgreeIf P) (c₁.softContent label) (c₂.softContent label) := by
  rw [HashContext.softContent, HashContext.softContent]
  have hsoft := hc.soft label
  generalize (c₁.sourceHasher.softDigest label : Result (Option D)) = soft₁ at hsoft ⊢
  generalize (c₂.sourceHasher.softDigest label : Result (Option D)) = soft₂ at hsoft ⊢
  cases hsoft with
  | error failure => exact .none
  | ok hd =>
      cases hd with
      | none => exact .none
      | some hd => exact .some hd

theorem content_related (hc : ContextRel P c₁ c₂) (hs : StateRel P Q c₁ c₂ s₁ s₂)
    (label : String) : Option.Rel (AgreeIf P) (c₁.content s₁ label) (c₂.content s₂ label) :=
  (hs.rules label).source.or (softContent_related hc label)

theorem stackSeed_related {n₁ n₂ : RuleNode D} (hn : NodeRel c₁ c₂ n₁ n₂) :
    c₁.stackSeed n₁.rule = c₂.stackSeed n₂.rule := by
  have hfiles : HashContext.stackFiles n₂.rule = HashContext.stackFiles n₁.rule := by
    rw [HashContext.stackFiles, HashContext.stackFiles, hn.stack]
  have htext : (HashContext.stackFiles n₁.rule).flatMap (fun path =>
        ((c₁.softContent ("//" ++ path)).map fun d => utf8 path ++ bytes d).getD []) =
      (HashContext.stackFiles n₁.rule).flatMap fun path =>
        ((c₂.softContent ("//" ++ path)).map fun d => utf8 path ++ bytes d).getD [] := by
    apply List.flatMap_congr
    intro path hpath
    rw [HashContext.softContent, HashContext.softContent, hn.bzl path hpath]
  rw [HashContext.stackSeed, HashContext.stackSeed, ← hn.stack, hfiles, htext]

theorem startText_related (hc : ContextRel P c₁ c₂) {n₁ n₂ : RuleNode D}
    (hn : NodeRel c₁ c₂ n₁ n₂) : c₁.startText n₁ = c₂.startText n₂ := by
  rw [HashContext.startText, HashContext.startText, hn.definition, hc.seedHash,
    stackSeed_related hn, hc.packageBzlSeeds, hn.name, ← hn.affected]
  by_cases haffected : c₁.isAlwaysAffected n₁.rule = true
  · rw [if_pos haffected, if_pos haffected, hn.seed haffected]
  · rw [if_neg haffected, if_neg haffected]

omit [HashFunction D] in
theorem edgeKey_related (hs : StateRel P Q c₁ c₂ s₁ s₂) (encodedInput inputLabel : String)
    (path : List String) :
    s₁.edgeKey encodedInput inputLabel path = s₂.edgeKey encodedInput inputLabel path := by
  simp only [HashState.edgeKey, (hs.rules _).rule, hs.instances]

theorem inputPieces_related (hs : StateRel P Q c₁ c₂ s₁ s₂) {n₁ n₂ : RuleNode D}
    (hn : NodeRel c₁ c₂ n₁ n₂) (input : String) :
    c₁.inputPieces s₁ n₁ input = c₂.inputPieces s₂ n₂ input := by
  have hencoded : c₁.encodedInput s₁ n₁ input = c₂.encodedInput s₂ n₂ input := by
    rw [HashContext.encodedInput, HashContext.encodedInput, hn.extension, hs.extensionView]
  have hpiece : c₁.inputPiece s₁ n₁ input = c₂.inputPiece s₂ n₂ input := by
    rw [HashContext.inputPiece, HashContext.inputPiece, hencoded]
    simp only [(hs.rules _).source.isSome_eq, edgeKey_related hs, (hs.rules _).rule]
  rw [HashContext.inputPieces, HashContext.inputPieces, hencoded, hpiece]

theorem groupPieces_related (hc : ContextRel P c₁ c₂) (hs : StateRel P Q c₁ c₂ s₁ s₂)
    (canonicalKey packageGroup : String) :
    c₁.groupPieces s₁ canonicalKey packageGroup = c₂.groupPieces s₂ canonicalKey packageGroup := by
  have hclass : ∀ group : String,
      ((c₁.nodes[group]?).any fun node => decide (node.rule.ruleClass = "package_group")) =
        (c₂.nodes[group]?).any fun node => decide (node.rule.ruleClass = "package_group") := by
    intro group
    rcases (hc.nodes group).dest with ⟨h₁, h₂⟩ | ⟨n₁, n₂, h₁, h₂, hn⟩
    · rw [h₁, h₂]
    · rw [h₁, h₂, Option.any_some, Option.any_some, hn.ruleClass]
  have hgroup : c₁.groupOf s₁ packageGroup = c₂.groupOf s₂ packageGroup := by
    rw [HashContext.groupOf, HashContext.groupOf, (hs.rules packageGroup).rule]
    simp only [hclass]
  rw [HashContext.groupPieces, HashContext.groupPieces, hgroup]

/-- Runs in lockstep feed their rules the same pieces. -/
theorem pieces_related (hc : ContextRel P c₁ c₂) (hs : StateRel P Q c₁ c₂ s₁ s₂) :
    c₁.pieces s₁ = c₂.pieces s₂ := by
  funext name
  rw [HashContext.pieces, HashContext.pieces]
  rcases (hc.nodes name).dest with ⟨h₁, h₂⟩ | ⟨n₁, n₂, h₁, h₂, hn⟩
  · rw [h₁, h₂]
    rfl
  · have hall : c₁.allInputs n₁ = c₂.allInputs n₂ := by
      rw [HashContext.allInputs, HashContext.allInputs, hn.inputs, hn.shared]
    have hinputs : c₁.inputPieces s₁ n₁ = c₂.inputPieces s₂ n₂ :=
      funext fun input => inputPieces_related hs hn input
    have hgroups : c₁.groupPieces s₁ n₁.rule.name = c₂.groupPieces s₂ n₂.rule.name := by
      rw [hn.name]
      exact funext fun packageGroup => groupPieces_related hc hs _ packageGroup
    rw [h₁, h₂, Option.map_some, Option.map_some, HashContext.rulePieces, HashContext.rulePieces,
      startText_related hc hn, hall, hinputs, hn.visibility, hgroups]

end Graph

/-! ## Two generations -/

/-- Two runs over the same records with the same settings and seeds, those from Starlark files
included. They may differ in the contents of sources, however these are read. -/
structure SameRecords (targets : List Target) (digests : PreparedRules D) (o₁ o₂ : HashOptions)
    (e₁ e₂ : Environment D) : Prop where
  setting : SettingRel False False o₁ o₂ e₁ e₂
  encode : e₁.encode = e₂.encode
  seeds : (hashSeedFiles e₁.disk o₁.bazel.workspace o₁.seedFilepaths : Result D) =
    hashSeedFiles e₂.disk o₂.bazel.workspace o₂.seedFilepaths
  bzl : bzlSeeds o₁ targets e₁ = bzlSeeds o₂ targets e₂
  stackFiles : ∀ rule ∈ targets.filterMap ruleOf, StackRel o₁ o₂ e₁ e₂ rule
  sources : Related (SourcesRel (D := D) False)
    (digestSources (e₁.sourceHasher o₁) o₁.bazel.useCquery (sourceTargets targets))
    (digestSources (e₂.sourceHasher o₂) o₂.bazel.useCquery (sourceTargets targets))

/-- Such runs outside partial-graph mode and without an isolated root. -/
structure SameButSources (targets : List Target) (digests : PreparedRules D)
    (o₁ o₂ : HashOptions) (e₁ e₂ : Environment D) : Prop
    extends SameRecords targets digests o₁ o₂ e₁ e₂ where
  full₁ : o₁.partialTree = none
  full₂ : o₂.partialTree = none
  unscoped : e₁.resolver.scopedSources.repositories.isEmpty = true

section Records

variable {targets : List Target} {digests : PreparedRules D} {o₁ o₂ : HashOptions}
  {e₁ e₂ : Environment D}

/-- The rules of such runs are the same, by their names. -/
theorem SameRecords.records (h : SameRecords targets digests o₁ o₂ e₁ e₂)
    (hnodup : (names targets).Nodup) :
    RecordsRel False o₁ o₂ e₁ e₂ digests digests targets targets := by
  have hnode : ∀ rule,
      RawNodeRel False (nodeOf digests e₁ o₁ rule) (nodeOf digests e₂ o₂ rule) := by
    intro rule
    rw [nodeOf, nodeOf]
    cases digests.find rule.name with
    | some prepared => exact RawNodeRel.refl _
    | none =>
        refine ⟨rfl, rfl, ?_, rfl, rfl, rfl, rfl, rfl, rfl, rfl, False.elim⟩
        dsimp only
        rw [decodedNode, decodedNode, h.encode, h.setting.ignored]
  exact ⟨hnodup, hnodup, rfl, rfl, rfl, fun name => Option.Rel.refl_of (fun rule => hnode rule) _⟩

/-- Without an isolated root they start in lockstep. -/
theorem SameButSources.prepared (h : SameButSources targets digests o₁ o₂ e₁ e₂)
    (hnodup : (names targets).Nodup) :
    Related (PreparedRel False False) (prepareTargets o₁ targets digests e₁)
      (prepareTargets o₂ targets digests e₂) :=
  prepareTargets_related h.setting (h.records hnodup) h.stackFiles (by rw [h.full₁, h.full₂]) h.seeds
    h.bzl h.sources (Or.inl h.unscoped)

end Records

/-- A target that stands for a rule of some kind, or a source with another content. -/
def Prepared.Marked (p₁ p₂ : Prepared D) (mark : String → Prop) : HashTarget → Prop
  | .rule key => ∃ name, (p₁.state.rules.find key).rule = some name ∧ mark name
  | .generated _ generatingRule =>
      ∃ name, (p₁.state.rules.find generatingRule).rule = some name ∧ mark name
  | .source label => (p₁.state.rules.find label).source ≠ (p₂.state.rules.find label).source

omit [HashFunction D] in
theorem Prepared.Marked.mono {p₁ p₂ : Prepared D} {mark mark' : String → Prop}
    (hmark : ∀ name, mark name → mark' name) {target : HashTarget} (h : p₁.Marked p₂ mark target) :
    p₁.Marked p₂ mark' target := by
  cases target with
  | rule key =>
      obtain ⟨name, hname, hmarked⟩ := h
      exact ⟨name, hname, hmark name hmarked⟩
  | generated key generatingRule =>
      obtain ⟨name, hname, hmarked⟩ := h
      exact ⟨name, hname, hmark name hmarked⟩
  | source label => exact h

/-- A target from which a source with another content can be reached. -/
def Prepared.Affected (p₁ p₂ : Prepared D) : HashTarget → Prop :=
  p₁.Marked p₂ (Reached (p₁.context.pieces p₁.state) (p₁.context.content p₁.state)
    (p₂.context.content p₂.state))

/-- The digest of a source target changes with its content. -/
theorem sourceTargetDigest_eq_iff (hinj : Function.Injective (digest : List UInt8 → D))
    {d₁ d₂ : Option D} (hshape : d₁.isSome = d₂.isSome) (seedHash : D) (packageSeed : Option D) :
    sourceTargetDigest d₁ seedHash packageSeed = sourceTargetDigest d₂ seedHash packageSeed ↔
      d₁ = d₂ := by
  rw [sourceTargetDigest, sourceTargetDigest, hinj.eq_iff]
  constructor
  · intro heq
    rw [List.append_assoc, List.append_assoc] at heq
    exact optionBytes_append hshape heq
  · rintro rfl
    rfl

/-- When the hashes of rules differ as far as these are marked, so does what the two runs file a
target with. -/
theorem means_eq_iff (hinj : Function.Injective (digest : List UInt8 → D)) {p₁ p₂ : Prepared D}
    (hslots : ∀ key, SlotRel P (p₁.state.rules.find key) (p₂.state.rules.find key))
    (hseed : p₁.context.seedHash = p₂.context.seedHash)
    (hbzl : p₁.context.packageBzlSeeds = p₂.context.packageBzlSeeds)
    {hashes₁ hashes₂ : String → Option (Hashes D)} {moved own : String → Prop}
    (hmoved : ∀ {name a b}, hashes₁ name = some a → hashes₂ name = some b →
      (a.overall = b.overall ↔ ¬ moved name) ∧ (a.own = b.own ↔ ¬ own name))
    {target : HashTarget} {keyed₁ keyed₂ : KeyedDigest D}
    (hm₁ : Means p₁.context p₁.state hashes₁ keyed₁ target)
    (hm₂ : Means p₂.context p₂.state hashes₂ keyed₂ target) :
    (keyed₁.digest.overall = keyed₂.digest.overall ↔ ¬ p₁.Marked p₂ moved target) ∧
      (keyed₁.digest.direct = keyed₂.digest.direct ↔ ¬ p₁.Marked p₂ own target) := by
  have hrule : ∀ {key : String}, (∃ name, (p₁.state.rules.find key).rule = some name ∧
        hashes₁ name = some ⟨keyed₁.digest.direct, keyed₁.digest.overall⟩) →
      (∃ name, (p₂.state.rules.find key).rule = some name ∧
        hashes₂ name = some ⟨keyed₂.digest.direct, keyed₂.digest.overall⟩) →
      (keyed₁.digest.overall = keyed₂.digest.overall ↔
        ¬ ∃ name, (p₁.state.rules.find key).rule = some name ∧ moved name) ∧
      (keyed₁.digest.direct = keyed₂.digest.direct ↔
        ¬ ∃ name, (p₁.state.rules.find key).rule = some name ∧ own name) := by
    rintro key ⟨name, hname, ha⟩ ⟨name', hname', hb⟩
    rw [← (hslots key).rule, hname] at hname'
    obtain rfl := Option.some.inj hname'
    have honly : ∀ holds : String → Prop,
        (∃ found, (p₁.state.rules.find key).rule = some found ∧ holds found) ↔ holds name := by
      intro holds
      rw [hname]
      simp
    rw [honly, honly]
    exact hmoved ha hb
  cases target with
  | rule key => exact hrule hm₁.2.2 hm₂.2.2
  | generated key generatingRule => exact hrule hm₁.2.2 hm₂.2.2
  | source label =>
      obtain ⟨-, -, hoverall₁, hdirect₁⟩ := hm₁
      obtain ⟨-, -, hoverall₂, hdirect₂⟩ := hm₂
      have hsource : keyed₁.digest.overall = keyed₂.digest.overall ↔
          (p₁.state.rules.find label).source = (p₂.state.rules.find label).source := by
        rw [hoverall₁, hoverall₂, ← hseed, ← hbzl]
        exact sourceTargetDigest_eq_iff hinj (hslots label).source.isSome_eq _ _
      rw [hdirect₁, hdirect₂, hsource, Prepared.Marked, Prepared.Marked]
      exact ⟨not_not.symm, not_not.symm⟩

/-! ## Labels -/

/-- What two runs file a target with: the same key and kind, and digests that agree unless the
target is affected. -/
structure FiledAs (affected own : HashTarget → Prop) (pair : KeyedDigest D × KeyedDigest D)
    (target : HashTarget) : Prop where
  filed : pair.1.key = target.label
  key : pair.1.key = pair.2.key
  kind : pair.1.kind = pair.2.kind
  overall : pair.1.digest.overall = pair.2.digest.overall ↔ ¬ affected target
  direct : pair.1.digest.direct = pair.2.digest.direct ↔ ¬ own target

/-- The hash of a label differs if one of the targets filed under it is affected. -/
theorem hashes_of_pairs (hinj : Function.Injective (digest : List UInt8 → D))
    {affected own : HashTarget → Prop} {pairs : List (KeyedDigest D × KeyedDigest D)}
    {targets : List HashTarget} (h : List.Forall₂ (FiledAs affected own) pairs targets)
    (trackDeps₁ trackDeps₂ : Bool) (label : String) :
    ((aggregateByLabel (pairs.map Prod.fst) trackDeps₁).hashes[label]? = none ∧
      (aggregateByLabel (pairs.map Prod.snd) trackDeps₂).hashes[label]? = none ∧
      ∀ target ∈ targets, targetLabel target.label ≠ label) ∨
    ∃ hash₁ hash₂, (aggregateByLabel (pairs.map Prod.fst) trackDeps₁).hashes[label]? = some hash₁ ∧
      (aggregateByLabel (pairs.map Prod.snd) trackDeps₂).hashes[label]? = some hash₂ ∧
      hash₁.kind = hash₂.kind ∧
      (hash₁.hash = hash₂.hash ↔
        ¬ ∃ target ∈ targets, targetLabel target.label = label ∧ affected target) ∧
      (hash₁.directHash = hash₂.directHash ↔
        ¬ ∃ target ∈ targets, targetLabel target.label = label ∧ own target) := by
  obtain ⟨found, hfound₁, hfound₂, hmem⟩ := instancesOf_pairs (fun pair hpair => by
    obtain ⟨target, -, hfiled⟩ := h.exists_right hpair
    exact hfiled.key) label
  have hlabel : ∀ {pair : KeyedDigest D × KeyedDigest D} {target : HashTarget},
      FiledAs affected own pair target →
      (pair.1.label = label ↔ targetLabel target.label = label) := by
    intro pair target hfiled
    rw [KeyedDigest.label, hfiled.filed]
  rw [hashes_aggregateByLabel, hashes_aggregateByLabel, hfound₁, hfound₂]
  rcases List.eq_nil_or_concat found with rfl | ⟨front, last, hfound⟩
  · refine Or.inl ⟨rfl, rfl, fun target htarget hname => ?_⟩
    obtain ⟨pair, hpair, hfiled⟩ := h.exists_left htarget
    exact List.not_mem_nil ((hmem pair).mpr ⟨hpair, (hlabel hfiled).mpr hname⟩)
  · have hne : found ≠ [] := by
      rw [hfound]
      simp
    have hkinds : ∀ pair ∈ found, pair.1.kind = pair.2.kind := by
      intro pair hpair
      obtain ⟨target, -, hfiled⟩ := h.exists_right ((hmem pair).mp hpair).1
      exact hfiled.kind
    have hall : ∀ {same : KeyedDigest D × KeyedDigest D → Prop} {holds : HashTarget → Prop},
        (∀ pair target, FiledAs affected own pair target → (same pair ↔ ¬ holds target)) →
        ((∀ pair ∈ found, same pair) ↔
          ¬ ∃ target ∈ targets, targetLabel target.label = label ∧ holds target) := by
      intro same holds hiff
      constructor
      · rintro hsame ⟨target, htarget, hname, hholds⟩
        obtain ⟨pair, hpair, hfiled⟩ := h.exists_left htarget
        have hin := (hmem pair).mpr ⟨hpair, (hlabel hfiled).mpr hname⟩
        exact (hiff pair target hfiled).mp (hsame pair hin) hholds
      · intro hnone pair hpair
        obtain ⟨hin, hname⟩ := (hmem pair).mp hpair
        obtain ⟨target, htarget, hfiled⟩ := h.exists_right hin
        exact (hiff pair target hfiled).mpr fun hholds =>
          hnone ⟨target, htarget, (hlabel hfiled).mp hname, hholds⟩
    obtain ⟨hash₁, hash₂, hhash₁, hhash₂, hkind, hoverall, hdirect⟩ :=
      hashOfInstances_pairs hinj hne hkinds
    exact Or.inr ⟨hash₁, hash₂, hhash₁, hhash₂, hkind,
      hoverall.trans (hall fun _ _ hfiled => hfiled.overall),
      hdirect.trans (hall fun _ _ hfiled => hfiled.direct)⟩

/-- The hashes of a generation outside partial-graph mode are those of its digests. -/
theorem hashes_of_full {options : HashOptions} {targets : List Target} {digests : PreparedRules D}
    {environment : Environment D} (hfull : options.partialTree = none) {data : HashFileData D}
    (h : hashTargetsWithEnvironment options targets digests environment = .ok data) :
    ∃ prepared state keyed, prepareTargets options targets digests environment = .ok prepared ∧
      prepared.run = .ok (state, keyed) ∧
      data.hashes = (aggregateByLabel keyed options.trackDeps).hashes := by
  obtain ⟨prepared, hprepared, h⟩ := bind_eq_ok h
  obtain ⟨⟨state, keyed⟩, hrun, h⟩ := bind_eq_ok h
  refine ⟨prepared, state, keyed, hprepared, hrun, ?_⟩
  change hashFile options environment state keyed = .ok data at h
  rw [hashFile, hfull] at h
  cases hrecorder : state.recorder <;> rw [hrecorder] at h <;> cases h <;> rfl

/-- The labels that two generations differ in are those of the marked targets, when the hashes of
rules differ as far as these are marked. -/
theorem impacted_of_moved [DecidableEq D] (hinj : Function.Injective (digest : List UInt8 → D))
    {targets : List Target} {digests : PreparedRules D} {o₁ o₂ : HashOptions}
    {e₁ e₂ : Environment D} (hnodup : (names targets).Nodup) (hgroups : SharedGroups digests)
    (hhubs : SharesAsHubs digests targets) (hplain : SharesPlain digests)
    (hfull₁ : o₁.partialTree = none) (hfull₂ : o₂.partialTree = none) {p₁ p₂ : Prepared D}
    (hp₁ : prepareTargets o₁ targets digests e₁ = .ok p₁)
    (hp₂ : prepareTargets o₂ targets digests e₂ = .ok p₂)
    (hslots : ∀ key, SlotRel P (p₁.state.rules.find key) (p₂.state.rules.find key))
    (hseed : p₁.context.seedHash = p₂.context.seedHash)
    (hbzl : p₁.context.packageBzlSeeds = p₂.context.packageBzlSeeds)
    (htargets : p₁.targets = p₂.targets) (hacyclic₁ : Acyclic p₁.context p₁.state)
    (hacyclic₂ : Acyclic p₂.context p₂.state) {moved own : String → Prop}
    (howns : ∀ name, own name → moved name)
    (hmoved : ∀ {hashes₁ hashes₂ : String → Option (Hashes D)},
      Merkle (p₁.context.pieces p₁.state) (p₁.context.content p₁.state) hashes₁ →
      Merkle (p₂.context.pieces p₂.state) (p₂.context.content p₂.state) hashes₂ →
      {name | (hashes₁ name).isSome = true}.Finite →
      ∀ {name a b}, hashes₁ name = some a → hashes₂ name = some b →
        (a.overall = b.overall ↔ ¬ moved name) ∧ (a.own = b.own ↔ ¬ own name))
    {f₁ f₂ : HashFileData D} (h₁ : hashTargetsWithEnvironment o₁ targets digests e₁ = .ok f₁)
    (h₂ : hashTargetsWithEnvironment o₂ targets digests e₂ = .ok f₂) :
    (∃ labels, impactedTargets f₁.hashes f₂.hashes none false = .ok labels ∧
      ∀ label, label ∈ labels ↔
        ∃ target ∈ p₁.targets, targetLabel target.label = label ∧ p₁.Marked p₂ moved target) ∧
    ∀ (label : String) hash₁ hash₂, f₁.hashes[label]? = some hash₁ →
      f₂.hashes[label]? = some hash₂ → (hash₁.directHash ≠ hash₂.directHash ↔
        ∃ target ∈ p₁.targets, targetLabel target.label = label ∧ p₁.Marked p₂ own target) := by
  obtain ⟨p, state₁, keyed₁, hp, hrun₁, hhashes₁⟩ := hashes_of_full hfull₁ h₁
  obtain rfl := Except.ok.inj (hp₁.symm.trans hp)
  obtain ⟨p, state₂, keyed₂, hp, hrun₂, hhashes₂⟩ := hashes_of_full hfull₂ h₂
  obtain rfl := Except.ok.inj (hp₂.symm.trans hp)
  obtain ⟨hsound₁, hmeans₁⟩ := run_means
    (startOk_of_prepareTargets hnodup hgroups hhubs hp₁ hplain) hacyclic₁
    (sound_start hnodup hgroups hhubs hp₁) (fun label hlabel => start_source hp₁ hlabel) _ hrun₁
  obtain ⟨hsound₂, hmeans₂⟩ := run_means
    (startOk_of_prepareTargets hnodup hgroups hhubs hp₂ hplain) hacyclic₂
    (sound_start hnodup hgroups hhubs hp₂) (fun label hlabel => start_source hp₂ hlabel) _ hrun₂
  dsimp only at hsound₁ hmeans₁ hsound₂ hmeans₂
  rw [← htargets] at hmeans₂
  obtain ⟨pairs, rfl, rfl, hpairs⟩ := hmeans₁.pairs hmeans₂
  have hfiled : List.Forall₂ (FiledAs (p₁.Marked p₂ moved) (p₁.Marked p₂ own)) pairs p₁.targets := by
    refine hpairs.imp fun pair target hmeans => ?_
    obtain ⟨hoverall, hdirect⟩ := means_eq_iff hinj hslots hseed hbzl
      (hmoved hsound₁.hashed hsound₂.hashed (finite_hashesOf state₁.digests)) hmeans.1 hmeans.2
    obtain ⟨hkey₁, hkind₁⟩ := hmeans.1.key_kind
    obtain ⟨hkey₂, hkind₂⟩ := hmeans.2.key_kind
    exact ⟨hkey₁, hkey₁.trans hkey₂.symm, hkind₁.trans hkind₂.symm, hoverall, hdirect⟩
  have hlabels := hashes_of_pairs hinj hfiled o₁.trackDeps o₂.trackDeps
  rw [← hhashes₁, ← hhashes₂] at hlabels
  constructor
  · obtain ⟨labels, hok, hmem⟩ := impactedTargets_unfiltered f₁.hashes f₂.hashes
    refine ⟨labels, hok, fun label => (hmem label).trans ?_⟩
    rcases hlabels label with ⟨hnone₁, hnone₂, hother⟩ |
      ⟨hash₁, hash₂, hhash₁, hhash₂, hkind, hoverall, hdirect⟩
    · constructor
      · rintro ⟨hash, hhash, -⟩
        rw [hnone₂] at hhash
        cases hhash
      · rintro ⟨target, htarget, hname, -⟩
        exact absurd hname (hother target htarget)
    · have hsame : hash₁ = hash₂ ↔
          ¬ ∃ target ∈ p₁.targets, targetLabel target.label = label ∧ p₁.Marked p₂ moved target := by
        rw [← hoverall]
        constructor
        · rintro rfl
          rfl
        · intro heq
          have hown : hash₁.directHash = hash₂.directHash := by
            refine hdirect.mpr ?_
            rintro ⟨target, htarget, hname, howned⟩
            exact hoverall.mp heq ⟨target, htarget, hname, howned.mono howns⟩
          cases hash₁
          cases hash₂
          rw [TargetHash.mk.injEq]
          exact ⟨hkind, heq, hown⟩
      rw [Moved, hhash₁, hhash₂, ← not_iff_not, ← hsame]
      constructor
      · intro hmoved
        by_contra hne
        exact hmoved ⟨hash₂, rfl, fun heq => hne (Option.some.inj heq)⟩
      · rintro rfl ⟨hash, hhash, hne⟩
        exact hne hhash
  · intro label hash₁ hash₂ hhash₁ hhash₂
    rcases hlabels label with ⟨hnone₁, -, -⟩ | ⟨a, b, ha, hb, -, -, hdirect⟩
    · rw [hnone₁] at hhash₁
      cases hhash₁
    · obtain rfl := Option.some.inj (ha.symm.trans hhash₁)
      obtain rfl := Option.some.inj (hb.symm.trans hhash₂)
      rw [ne_eq, hdirect, not_not]

/-- On a disk that holds directories only there is no file to digest. -/
theorem softDigest_of_no_files {environment : Environment D} {options : HashOptions}
    (hdisk : ∀ path, (environment.disk.metadata path).toOption.any (·.isFile) = false)
    (hfull : options.partialTree = none) (label : String) :
    ((environment.sourceHasher options).softDigest label : Result (Option D)) = .ok none := by
  rw [SourceHasher.softDigest]
  split_ifs with hmain
  · rfl
  · have htree : (environment.sourceHasher options).tree = none := hfull
    rw [htree]
    obtain ⟨path, hpath⟩ := Option.isSome_iff_exists.mp
      ((isMainRepo_iff_mainRepoPath label).mp (by simpa using hmain))
    rw [SourceHasher.resolve, hpath]
    simp only [bind, Except.bind, pure, Except.pure]
    rw [if_neg]
    rw [Bool.not_eq_true]
    exact hdisk _

theorem settingRel_of_no_files {o₁ o₂ : HashOptions} {e₁ e₂ : Environment D}
    (hdisk₁ : ∀ path, (e₁.disk.metadata path).toOption.any (·.isFile) = false)
    (hdisk₂ : ∀ path, (e₂.disk.metadata path).toOption.any (·.isFile) = false)
    (hfull₁ : o₁.partialTree = none) (hfull₂ : o₂.partialTree = none)
    (hbazel : o₁.bazel = o₂.bazel) (hignored : o₁.ignoredAttributes = o₂.ignoredAttributes)
    (htrack : o₁.trackDeps = o₂.trackDeps) (htags : o₁.alwaysAffectedTags = o₂.alwaysAffectedTags)
    (hseed : e₁.alwaysAffectedSeed = e₂.alwaysAffectedSeed) (hresolver : e₁.resolver = e₂.resolver) :
    SettingRel False False o₁ o₂ e₁ e₂ := by
  refine ⟨hbazel, hignored, htrack, htags, Or.inr hseed, hresolver, fun label => ?_, False.elim⟩
  rw [softDigest_of_no_files hdisk₁ hfull₁, softDigest_of_no_files hdisk₂ hfull₂]
  exact .ok .none

theorem stackRel_of_no_files {o₁ o₂ : HashOptions} {e₁ e₂ : Environment D}
    (hdisk₁ : ∀ path, (e₁.disk.metadata path).toOption.any (·.isFile) = false)
    (hdisk₂ : ∀ path, (e₂.disk.metadata path).toOption.any (·.isFile) = false)
    (hfull₁ : o₁.partialTree = none) (hfull₂ : o₂.partialTree = none) (rule : Rule) :
    StackRel o₁ o₂ e₁ e₂ rule := by
  intro path _
  rw [softDigest_of_no_files hdisk₁ hfull₁, softDigest_of_no_files hdisk₂ hfull₂]

/-- Sources that all have a digest are named alike. -/
theorem sources_related_of_ok {hasher hasher' : SourceHasher} {useCquery : Bool}
    {sources : List SourceTarget}
    (h : (digestSources hasher useCquery sources : Result (List (String × D))).toBool = true)
    (h' : (digestSources hasher' useCquery sources : Result (List (String × D))).toBool = true) :
    Related (SourcesRel (D := D) False) (digestSources hasher useCquery sources)
      (digestSources hasher' useCquery sources) := by
  have hnames := digestSources_names (D := D) hasher useCquery sources
  have hnames' := digestSources_names (D := D) hasher' useCquery sources
  cases hdigests : (digestSources hasher useCquery sources : Result (List (String × D))) with
  | error failure =>
      rw [hdigests] at h
      cases h
  | ok digests =>
      cases hdigests' : (digestSources hasher' useCquery sources : Result (List (String × D))) with
      | error failure =>
          rw [hdigests'] at h'
          cases h'
      | ok digests' =>
          have hsame : List.Forall₂ Eq (digests.map Prod.fst) (digests'.map Prod.fst) := by
            rw [hnames _ hdigests, hnames' _ hdigests', List.forall₂_eq_eq_eq]
          exact .ok ((List.forall₂_map_right_iff.mp (List.forall₂_map_left_iff.mp hsame)).imp
            fun _ _ hname => ⟨hname, False.elim⟩)

end BazelDiff
