/-
# Two runs of the traversal in lockstep

The control flow of the traversal depends on which labels are rules, sources and
trackable files, and never on what a digest is. Two runs over contexts that agree on
those questions therefore make the same moves, record the same recipes and edges, and,
when the source digests agree too, compute the same digests.

`P` stands for the agreement of source digests and `Q` for the agreement of loading
inputs; both are propositions so that one relation serves runs that differ in either.
-/

import BazelDiff.Hash.Resolution
import BazelDiff.Lib.Outcome
import BazelDiff.Lib.Pointwise

namespace BazelDiff

open Text HashFunction Outcome

variable {D : Type}

/-! ## The relations -/

structure SlotRel (P : Prop) (s₁ s₂ : LabelSlot D) : Prop where
  rule : s₁.rule = s₂.rule
  replaced : s₁.replacedCanonical = s₂.replacedCanonical
  source : Option.Rel (AgreeIf P) s₁.source s₂.source

structure DigestRel (P : Prop) (d₁ d₂ : TargetDigest D) : Prop where
  deps : d₁.deps = d₂.deps
  agree : AgreeIf P d₁ d₂

theorem DigestRel.refl {P : Prop} (d : TargetDigest D) : DigestRel P d d :=
  ⟨rfl, AgreeIf.refl d⟩

theorem DigestRel.overall {P : Prop} {d₁ d₂ : TargetDigest D} (h : DigestRel P d₁ d₂) :
    AgreeIf P d₁.overall d₂.overall :=
  fun hP => congrArg _ (h.agree hP)

structure BuilderRel (P : Prop) (b₁ b₂ : TargetDigestBuilder) : Prop where
  trackDeps : b₁.trackDeps = b₂.trackDeps
  deps : b₁.deps = b₂.deps
  recipe : b₁.recipe = b₂.recipe
  overall : AgreeIf P b₁.overallHasher b₂.overallHasher
  direct : AgreeIf P b₁.directHasher b₂.directHasher

structure RecorderRel (Q : Prop) (r₁ r₂ : RecipeRecorder) : Prop where
  subincludes : RecipeRecorder.SameSubincludes r₁.subincludes r₂.subincludes
  recipes : r₁.recipes.withoutLoading = r₂.recipes.withoutLoading
  loading : AgreeIf Q r₁.recipes.loadInputs r₂.recipes.loadInputs

/-- What two states of the traversal have in common. -/
structure StateRel (P Q : Prop) (c₁ c₂ : HashContext D) (s₁ s₂ : HashState D) : Prop where
  rules : ∀ key, SlotRel P (s₁.rules.find key) (s₂.rules.find key)
  digests : Pointwise (DigestRel P) s₁.digests s₂.digests
  instances : s₁.instances = s₂.instances
  shared : Pointwise (fun a b => a.1 = b.1 ∧ AgreeIf P a.2 b.2) s₁.repositoryInputDigests
    s₂.repositoryInputDigests
  bzl : s₁.bzlDigests = s₂.bzlDigests
  recorder : Option.Rel (RecorderRel Q) s₁.recorder s₂.recorder
  positions₁ : c₁.PositionsOk s₁
  positions₂ : c₂.PositionsOk s₂

inductive InputRel (P : Prop) : Input D → Input D → Prop
  | source {d₁ d₂ : D} (h : AgreeIf P d₁ d₂) : InputRel P (.source d₁) (.source d₂)
  | rule (dependency node : String) {prior₁ prior₂ : Option D}
      (h : Option.Rel (AgreeIf P) prior₁ prior₂) :
      InputRel P (.rule dependency node prior₁) (.rule dependency node prior₂)

variable [HashFunction D]

/-- Two nodes that contribute the same direct bytes and lead to the same inputs. -/
structure NodeRel (c₁ c₂ : HashContext D) (n₁ n₂ : RuleNode D) : Prop where
  name : n₁.rule.name = n₂.rule.name
  ruleClass : n₁.rule.ruleClass = n₂.rule.ruleClass
  definition : n₁.prepared.definitionDigest = n₂.prepared.definitionDigest
  shared : n₁.prepared.sharedInputs = n₂.prepared.sharedInputs
  stack : n₁.rule.instantiationStack = n₂.rule.instantiationStack
  affected : c₁.isAlwaysAffected n₁.rule = c₂.isAlwaysAffected n₂.rule
  seed : c₁.isAlwaysAffected n₁.rule = true → c₁.alwaysAffectedSeed = c₂.alwaysAffectedSeed
  extension : c₁.extensionOf n₁.rule = c₂.extensionOf n₂.rule
  inputs : c₁.inputsOf n₁ = c₂.inputsOf n₂
  visibility : c₁.visibilityOf n₁.rule = c₂.visibilityOf n₂.rule
  bzl : ∀ path ∈ HashContext.stackFiles n₁.rule,
    (c₁.sourceHasher.softDigest ("//" ++ path) : Result (Option D)) =
      c₂.sourceHasher.softDigest ("//" ++ path)

/-- Two contexts that agree on everything but the content of sources. -/
structure ContextRel (P : Prop) (c₁ c₂ : HashContext D) : Prop where
  trackDeps : c₁.options.trackDeps = c₂.options.trackDeps
  seedHash : c₁.seedHash = c₂.seedHash
  packageBzlSeeds : c₁.packageBzlSeeds = c₂.packageBzlSeeds
  soft : ∀ label, Related (Option.Rel (AgreeIf P))
    (c₁.sourceHasher.softDigest label : Result (Option D)) (c₂.sourceHasher.softDigest label)
  nodes : Pointwise (NodeRel c₁ c₂) c₁.nodes c₂.nodes

/-! ## Builders -/

namespace BuilderRel

variable {P : Prop} {b₁ b₂ : TargetDigestBuilder}

theorem refl (b : TargetDigestBuilder) : BuilderRel P b b :=
  ⟨rfl, rfl, rfl, AgreeIf.refl _, AgreeIf.refl _⟩

theorem feedDirect (h : BuilderRel P b₁ b₂) (fed : List UInt8) :
    BuilderRel P (b₁.direct fed) (b₂.direct fed) where
  trackDeps := h.trackDeps
  deps := h.deps
  recipe := by simp only [TargetDigestBuilder.direct, h.recipe]
  overall := h.overall
  direct hP := by simp only [TargetDigestBuilder.direct, h.direct hP]

theorem source (h : BuilderRel P b₁ b₂) (label : String) {d₁ d₂ : D} (hd : AgreeIf P d₁ d₂) :
    BuilderRel P (b₁.source label d₁) (b₂.source label d₂) where
  trackDeps := h.trackDeps
  deps := h.deps
  recipe := by simp only [TargetDigestBuilder.source, h.recipe]
  overall := h.overall
  direct hP := by simp only [TargetDigestBuilder.source, h.direct hP, hd hP]

theorem transitive (h : BuilderRel P b₁ b₂) (label canonical : String) {d₁ d₂ : D}
    (hd : AgreeIf P d₁ d₂) :
    BuilderRel P (b₁.transitive label canonical d₁) (b₂.transitive label canonical d₂) where
  trackDeps := h.trackDeps
  deps := by simp only [TargetDigestBuilder.transitive, h.trackDeps, h.deps]
  recipe := by simp only [TargetDigestBuilder.transitive, h.recipe]
  overall hP := by simp only [TargetDigestBuilder.transitive, h.overall hP, hd hP]
  direct := h.direct

theorem shared (h : BuilderRel P b₁ b₂) (labels : List String) (labelBytes : List UInt8)
    {t₁ t₂ : List UInt8} (ht : AgreeIf P t₁ t₂) :
    BuilderRel P (b₁.shared labels labelBytes t₁) (b₂.shared labels labelBytes t₂) where
  trackDeps := h.trackDeps
  deps := by
    change (if b₁.trackDeps = true then labels else b₁.deps) =
      if b₂.trackDeps = true then labels else b₂.deps
    rw [h.trackDeps, h.deps]
  recipe := by simp only [TargetDigestBuilder.shared, TargetDigestBuilder.direct, h.recipe]
  overall := ht
  direct hP := by
    simp only [TargetDigestBuilder.shared, TargetDigestBuilder.direct, h.direct hP]

/-- Related builders finish with the same recipe and edges. -/
theorem finish (h : BuilderRel P b₁ b₂) :
    (b₁.finish : TargetDigest D × _).2 = (b₂.finish : TargetDigest D × _).2 ∧
      DigestRel P (b₁.finish : TargetDigest D × _).1 b₂.finish.1 := by
  refine ⟨by simp only [TargetDigestBuilder.finish, h.recipe],
    by simp only [TargetDigestBuilder.finish, h.deps], fun hP => ?_⟩
  simp only [TargetDigestBuilder.finish, h.deps, h.overall hP, h.direct hP]

end BuilderRel

/-! ## Resolution -/

namespace StateRel

variable {P Q : Prop} {c₁ c₂ : HashContext D} {s₁ s₂ : HashState D}

omit [HashFunction D] in
theorem completed (h : StateRel P Q c₁ c₂ s₁ s₂) (label key : String) :
    Option.Rel (DigestRel P) (s₁.completed (s₁.rules.find label) key)
      (s₂.completed (s₂.rules.find label) key) := by
  have hslot := h.rules label
  rw [HashState.completed, HashState.completed, hslot.rule, hslot.replaced]
  exact (Option.Rel.refl_of (fun _ => rfl) _).bind fun node node' heq => by
    obtain rfl : node = node' := heq
    exact h.digests node

omit [HashFunction D] in
theorem prior (h : StateRel P Q c₁ c₂ s₁ s₂) (label : String) :
    Option.Rel (DigestRel P) (s₁.prior (s₁.rules.find label)) (s₂.prior (s₂.rules.find label)) := by
  rw [HashState.prior, HashState.prior, (h.rules label).replaced]
  exact (Option.Rel.refl_of (fun _ => rfl) _).bind fun node node' heq => by
    obtain rfl : node = node' := heq
    exact h.digests node

omit [HashFunction D] in
theorem resolving (h : StateRel P Q c₁ c₂ s₁ s₂) (key label : String) :
    Option.Rel (InputRel P) (s₁.resolving key (s₁.rules.find label))
      (s₂.resolving key (s₂.rules.find label)) := by
  rw [HashState.resolving, HashState.resolving, (h.rules label).rule]
  cases (s₂.rules.find label).rule with
  | none => exact .none
  | some node => exact .some (.rule key node ((h.prior label).map fun _ _ hd => hd.overall))

omit [HashFunction D] in
theorem resolveByName (h : StateRel P Q c₁ c₂ s₁ s₂) (encodedInput inputLabel : String)
    (path : List String) :
    Option.Rel (InputRel P) (s₁.resolveByName encodedInput inputLabel path)
      (s₂.resolveByName encodedInput inputLabel path) := by
  have hexact : Option.Rel (InputRel P)
      ((if encodedInput = inputLabel then none
        else s₁.resolving encodedInput (s₁.rules.find encodedInput)).or
        (s₁.resolving inputLabel (s₁.rules.find inputLabel)))
      ((if encodedInput = inputLabel then none
        else s₂.resolving encodedInput (s₂.rules.find encodedInput)).or
        (s₂.resolving inputLabel (s₂.rules.find inputLabel))) := by
    refine Option.Rel.or ?_ (h.resolving inputLabel inputLabel)
    split_ifs
    · exact .none
    · exact h.resolving encodedInput encodedInput
  rw [HashState.resolveByName, HashState.resolveByName, h.instances]
  rcases (h.rules inputLabel).source.dest with ⟨h₁, h₂⟩ | ⟨d₁, d₂, h₁, h₂, hd⟩
  · simp only [h₁, h₂]
    rcases hexact.dest with ⟨he₁, he₂⟩ | ⟨i₁, i₂, he₁, he₂, hi⟩
    · simp only [he₁, he₂]
      cases (s₂.instances[inputLabel]?).bind (·.head?) with
      | none => exact .none
      | some fallback =>
          dsimp only
          split_ifs
          · exact .none
          · exact h.resolving fallback fallback
    · simp only [he₁, he₂]
      exact .some hi
  · simp only [h₁, h₂]
    exact .some (.source hd)

omit [HashFunction D] in
/-- The relation is about the index of configured keys, built or not. -/
theorem withIndex (h : StateRel P Q c₁ c₂ s₁ s₂) {i₁ i₂ : Option (StringMap (List String))}
    (h₁ : i₁ = s₁.labelInstances ∨ i₁ = some s₁.instances)
    (h₂ : i₂ = s₂.labelInstances ∨ i₂ = some s₂.instances) :
    StateRel P Q c₁ c₂ { s₁ with labelInstances := i₁ } { s₂ with labelInstances := i₂ } where
  rules := h.rules
  digests := h.digests
  instances := by
    have index : ∀ (s : HashState D) {i : Option (StringMap (List String))},
        i = s.labelInstances ∨ i = some s.instances →
        ({ s with labelInstances := i } : HashState D).instances = s.instances := by
      intro s i hi
      rcases hi with rfl | rfl <;> rfl
    rw [index s₁ h₁, index s₂ h₂, h.instances]
  shared := h.shared
  bzl := h.bzl
  recorder := h.recorder
  positions₁ := h.positions₁
  positions₂ := h.positions₂

omit [HashFunction D] in
theorem setSource (h : StateRel P Q c₁ c₂ s₁ s₂) (label : String) {d₁ d₂ : D}
    (hd : AgreeIf P d₁ d₂) :
    StateRel P Q c₁ c₂ (s₁.setSource label d₁) (s₂.setSource label d₂) where
  rules key := by
    rw [HashState.find_setSource, HashState.find_setSource]
    split_ifs
    · exact ⟨(h.rules label).rule, (h.rules label).replaced, .some hd⟩
    · exact h.rules key
  digests := h.digests
  instances := by rw [HashState.instances_setSource, HashState.instances_setSource, h.instances]
  shared := h.shared
  bzl := h.bzl
  recorder := h.recorder
  positions₁ := h.positions₁.setSource label d₁
  positions₂ := h.positions₂.setSource label d₂

omit [HashFunction D] in
theorem extensionView (h : StateRel P Q c₁ c₂ s₁ s₂) (extension : Option String)
    (input : String) :
    HashContext.extensionView s₁ extension input =
      HashContext.extensionView s₂ extension input := by
  simp only [HashContext.extensionView_eq, (h.rules _).rule]

omit [HashFunction D] in
theorem sharedDigest (h : StateRel P Q c₁ c₂ s₁ s₂) (label : String) :
    Option.Rel (DigestRel P) (HashContext.sharedDigest s₁ label)
      (HashContext.sharedDigest s₂ label) := by
  have hsource : (s₁.rules.find label).source.isNone = (s₂.rules.find label).source.isNone := by
    rw [← Option.not_isSome, ← Option.not_isSome, (h.rules label).source.isSome_eq]
  rw [HashContext.sharedDigest, HashContext.sharedDigest, hsource]
  split_ifs
  · exact h.completed label label
  · exact .none

/-- The digests of shared inputs are complete in both runs or in neither. -/
theorem sharedDigests (h : StateRel P Q c₁ c₂ s₁ s₂) (labels : List String) :
    Option.Rel (fun a b => a.1 = b.1 ∧ AgreeIf P a.2 b.2)
      (HashContext.sharedDigests s₁ labels) (HashContext.sharedDigests s₂ labels) := by
  have hall : ∀ labels : List String, Option.Rel
      (fun ds es : List (TargetDigest D) => AgreeIf P
        (ds.flatMap fun d => bytes d.overall) (es.flatMap fun d => bytes d.overall))
      (labels.mapM (HashContext.sharedDigest s₁)) (labels.mapM (HashContext.sharedDigest s₂)) := by
    intro labels
    induction labels with
    | nil => exact .some (AgreeIf.refl _)
    | cons label rest ih =>
        rw [List.mapM_cons, List.mapM_cons]
        refine Option.Rel.bind (h.sharedDigest label) fun d e hde => ?_
        refine Option.Rel.bind ih fun ds es hds => .some fun hP => ?_
        rw [List.flatMap_cons, List.flatMap_cons, hde.overall hP, hds hP]
  rw [HashContext.sharedDigests_eq, HashContext.sharedDigests_eq]
  exact (hall labels).map fun _ _ hds => ⟨rfl, hds⟩

end StateRel

/-! ## The steps of a visit -/

section Steps

variable {P Q : Prop} {c₁ c₂ : HashContext D}

/-- Related states with related builders. -/
def FedRel (P Q : Prop) (c₁ c₂ : HashContext D)
    (a b : HashState D × TargetDigestBuilder) : Prop :=
  StateRel P Q c₁ c₂ a.1 b.1 ∧ BuilderRel P a.2 b.2

/-- Related states with related digests. -/
def VisitedRel (P Q : Prop) (c₁ c₂ : HashContext D)
    (a b : HashState D × TargetDigest D) : Prop :=
  StateRel P Q c₁ c₂ a.1 b.1 ∧ DigestRel P a.2 b.2

/-- Two ways to visit nodes that keep related states related. -/
def VisitRel (P Q : Prop) (c₁ c₂ : HashContext D) (v₁ v₂ : HashContext.Visit D) : Prop :=
  ∀ name path s₁ s₂, StateRel P Q c₁ c₂ s₁ s₂ →
    Related (VisitedRel P Q c₁ c₂) (v₁ name path s₁) (v₂ name path s₂)

theorem bzlDigest_related {s₁ s₂ : HashState D} (hs : StateRel P Q c₁ c₂ s₁ s₂) {path : String}
    (hsoft : (c₁.sourceHasher.softDigest ("//" ++ path) : Result (Option D)) =
      c₂.sourceHasher.softDigest ("//" ++ path)) :
    Related (fun a b => StateRel P Q c₁ c₂ a.1 b.1 ∧ a.2 = b.2)
      (c₁.bzlDigest s₁ path) (c₂.bzlDigest s₂ path) := by
  rw [HashContext.bzlDigest, HashContext.bzlDigest, ← hs.bzl, hsoft]
  cases s₁.bzlDigests[path]? with
  | some cached => exact .ok ⟨hs, rfl⟩
  | none =>
      refine Related.bind (Related.refl (fun _ => rfl) _) fun d d' hd => ?_
      obtain rfl : d = d' := hd
      exact .ok ⟨{ hs with bzl := by rw [hs.bzl] }, rfl⟩

theorem ruleBzlSeed_related {s₁ s₂ : HashState D} (hs : StateRel P Q c₁ c₂ s₁ s₂)
    {n₁ n₂ : RuleNode D} (hn : NodeRel c₁ c₂ n₁ n₂) :
    Related (fun a b => StateRel P Q c₁ c₂ a.1 b.1 ∧ a.2 = b.2)
      (c₁.ruleBzlSeed s₁ n₁.rule) (c₂.ruleBzlSeed s₂ n₂.rule) := by
  have hfiles : HashContext.stackFiles n₂.rule = HashContext.stackFiles n₁.rule := by
    rw [HashContext.stackFiles, HashContext.stackFiles, hn.stack]
  rw [HashContext.ruleBzlSeed, HashContext.ruleBzlSeed, ← hn.stack, hfiles]
  split_ifs
  · exact .ok ⟨hs, rfl⟩
  · have hfold : Related (fun a b => StateRel P Q c₁ c₂ a.1 b.1 ∧ a.2 = b.2)
        ((HashContext.stackFiles n₁.rule).foldlM c₁.feedStackFile (s₁, []))
        ((HashContext.stackFiles n₁.rule).foldlM c₂.feedStackFile (s₂, [])) := by
      refine Related.foldlM (fun path hpath a b hab => ?_) ⟨hs, rfl⟩
      refine Related.bind (bzlDigest_related hab.1 (hn.bzl path hpath)) ?_
      rintro ⟨a', d⟩ ⟨b', d'⟩ ⟨hab', rfl⟩
      rw [hab.2]
      cases d with
      | some d => exact .ok ⟨hab', rfl⟩
      | none => exact .ok ⟨hab', rfl⟩
    refine Related.bind hfold ?_
    rintro ⟨a, fed⟩ ⟨b, fed'⟩ ⟨hab, rfl⟩
    exact .ok ⟨hab, rfl⟩

theorem startDigest_related (hc : ContextRel P c₁ c₂) {s₁ s₂ : HashState D}
    (hs : StateRel P Q c₁ c₂ s₁ s₂) {n₁ n₂ : RuleNode D} (hn : NodeRel c₁ c₂ n₁ n₂) :
    Related (FedRel P Q c₁ c₂) (c₁.startDigest s₁ n₁) (c₂.startDigest s₂ n₂) := by
  rw [HashContext.startDigest, HashContext.startDigest]
  refine Related.bind (ruleBzlSeed_related hs hn) ?_
  rintro ⟨a, seed⟩ ⟨b, seed'⟩ ⟨hab, rfl⟩
  refine .ok ⟨hab, ?_⟩
  dsimp only
  rw [hc.trackDeps, hs.recorder.isSome_eq, hn.definition, hc.seedHash, hn.name,
    hc.packageBzlSeeds, ← hn.affected]
  by_cases haffected : c₁.isAlwaysAffected n₁.rule = true
  · rw [if_pos haffected, if_pos haffected, hn.seed haffected]
    exact BuilderRel.refl _
  · rw [if_neg haffected, if_neg haffected]
    exact BuilderRel.refl _

theorem applyRepositoryInputs_related {s₁ s₂ : HashState D} (hs : StateRel P Q c₁ c₂ s₁ s₂)
    {b₁ b₂ : TargetDigestBuilder} (hb : BuilderRel P b₁ b₂) (group : RepositoryInputGroup) :
    Option.Rel (FedRel P Q c₁ c₂) (HashContext.applyRepositoryInputs s₁ group b₁)
      (HashContext.applyRepositoryInputs s₂ group b₂) := by
  rw [HashContext.applyRepositoryInputs, HashContext.applyRepositoryInputs]
  refine Option.Rel.bind ((hs.shared group.extension).or (hs.sharedDigests group.labels)) ?_
  rintro ⟨labels, t₁⟩ ⟨labels', t₂⟩ ⟨rfl, ht⟩
  refine .some ⟨{ hs with shared := ?_ }, hb.shared group.labels labels ht⟩
  exact hs.shared.insertIfNew group.extension ⟨rfl, ht⟩

omit [HashFunction D] in
theorem visitOverall_related {v₁ v₂ : HashContext.Visit D} (hv : VisitRel P Q c₁ c₂ v₁ v₂)
    {s₁ s₂ : HashState D} (hs : StateRel P Q c₁ c₂ s₁ s₂) (path : List String) (node : String)
    {p₁ p₂ : Option D} (hp : Option.Rel (AgreeIf P) p₁ p₂) :
    Related (fun a b => StateRel P Q c₁ c₂ a.1 b.1 ∧ AgreeIf P a.2 b.2)
      (HashContext.visitOverall v₁ path s₁ node p₁)
      (HashContext.visitOverall v₂ path s₂ node p₂) := by
  have hdigest := hp.or ((hs.digests node).map fun _ _ hd => hd.overall)
  rw [HashContext.visitOverall, HashContext.visitOverall]
  rcases hdigest.dest with ⟨h₁, h₂⟩ | ⟨d₁, d₂, h₁, h₂, hd⟩
  · simp only [h₁, h₂]
    exact (hv node path s₁ s₂ hs).map fun _ _ h => ⟨h.1, h.2.overall⟩
  · simp only [h₁, h₂]
    exact .ok ⟨hs, hd⟩

theorem feedInput_related (hc : ContextRel P c₁ c₂) {v₁ v₂ : HashContext.Visit D}
    (hv : VisitRel P Q c₁ c₂ v₁ v₂) (canonicalKey : String) (path : List String)
    (inputLabel : String) {s₁ s₂ : HashState D} (hs : StateRel P Q c₁ c₂ s₁ s₂)
    {b₁ b₂ : TargetDigestBuilder} (hb : BuilderRel P b₁ b₂) {i₁ i₂ : Option (Input D)}
    (hi : Option.Rel (InputRel P) i₁ i₂) :
    Related (FedRel P Q c₁ c₂)
      (c₁.feedInput v₁ canonicalKey path inputLabel s₁ b₁ i₁)
      (c₂.feedInput v₂ canonicalKey path inputLabel s₂ b₂ i₂) := by
  have hsoft : Related (FedRel P Q c₁ c₂)
      (c₁.feedInput v₁ canonicalKey path inputLabel s₁ b₁ none)
      (c₂.feedInput v₂ canonicalKey path inputLabel s₂ b₂ none) := by
    rw [HashContext.feedInput, HashContext.feedInput]
    refine Related.bind (hc.soft inputLabel) fun d₁ d₂ hd => ?_
    cases hd with
    | none => exact .ok ⟨hs, hb⟩
    | some hd => exact .ok ⟨hs.setSource inputLabel hd, hb.source inputLabel hd⟩
  rw [HashContext.feedInput, HashContext.feedInput]
  cases hi with
  | none => exact hsoft
  | some hi =>
      cases hi with
      | source hd => exact .ok ⟨hs, hb.source inputLabel hd⟩
      | rule dependency node hp =>
          by_cases hself : dependency = canonicalKey
          · simp only [Option.filter, hself, ne_eq, not_true, decide_false, Bool.false_eq_true,
              if_false]
            exact hsoft
          · simp only [Option.filter, ne_eq, hself, not_false_eq_true, decide_true, if_true]
            refine Related.bind (visitOverall_related hv hs path node hp) ?_
            rintro ⟨a, d⟩ ⟨b, e⟩ ⟨hab, hde⟩
            exact .ok ⟨hab, hb.transitive dependency node hde⟩

theorem inputStep_related (hc : ContextRel P c₁ c₂) {v₁ v₂ : HashContext.Visit D}
    (hv : VisitRel P Q c₁ c₂ v₁ v₂) {name : String} {n₁ n₂ : RuleNode D}
    (h₁ : c₁.nodes[name]? = some n₁) (h₂ : c₂.nodes[name]? = some n₂)
    (hn : NodeRel c₁ c₂ n₁ n₂) (path : List String) {more : List String} {input : String × Nat}
    (hinput : input ∈ (c₁.inputsOf n₁ ++ more).zipIdx)
    {f₁ f₂ : HashState D × TargetDigestBuilder} (hf : FedRel P Q c₁ c₂ f₁ f₂) :
    Related (FedRel P Q c₁ c₂) (c₁.inputStep v₁ n₁ path f₁ input)
      (c₂.inputStep v₂ n₂ path f₂ input) := by
  obtain ⟨s₁, b₁⟩ := f₁
  obtain ⟨s₂, b₂⟩ := f₂
  obtain ⟨hs, hb⟩ := hf
  have hinput₂ : input ∈ (c₂.inputsOf n₂ ++ more).zipIdx := hn.inputs ▸ hinput
  -- A node's position is only used for the input it was kept for.
  have hslot : ∀ {c : HashContext D} {s : HashState D} {n : RuleNode D}, c.PositionsOk s →
      c.nodes[name]? = some n → input ∈ (c.inputsOf n ++ more).zipIdx →
      ∀ view : Option String, ∀ id,
        (if view.isSome then none
          else n.inputPositions.bind fun ids => (ids[input.2]?).getD none) = some id →
        s.rules.ids[targetLabel (view.getD input.1)]? = some id := by
    intro c s n hpos hnode hmem view id hid
    cases view with
    | none => exact hpos.input hnode hmem hid
    | some view => cases hid
  dsimp only [HashContext.inputStep]
  rw [← hn.extension, hs.extensionView]
  generalize HashContext.extensionView s₂ (c₁.extensionOf n₁.rule) input.1 = view
  obtain ⟨i₁, heq₁, hi₁⟩ := s₁.resolveInput_eq (view.getD input.1) path
    (hslot hs.positions₁ h₁ hinput view)
  obtain ⟨i₂, heq₂, hi₂⟩ := s₂.resolveInput_eq (view.getD input.1) path
    (hslot hs.positions₂ h₂ hinput₂ view)
  rw [heq₁, heq₂, ← hn.name]
  exact feedInput_related hc hv n₁.rule.name path _ (hs.withIndex hi₁ hi₂)
    (hb.feedDirect _) (hs.resolveByName _ _ path)

omit [HashFunction D] in
theorem groupOf_related {s₁ s₂ : HashState D} (hs : StateRel P Q c₁ c₂ s₁ s₂)
    (hclass : ∀ name : String, (c₁.nodes[name]?).map (·.rule.ruleClass) =
      (c₂.nodes[name]?).map (·.rule.ruleClass)) (packageGroup : String) :
    c₁.groupOf s₁ packageGroup = c₂.groupOf s₂ packageGroup := by
  have hany : ∀ name : String, ((c₁.nodes[name]?).any fun n => n.rule.ruleClass = "package_group") =
      (c₂.nodes[name]?).any fun n => n.rule.ruleClass = "package_group" := by
    intro name
    have hmap := congrArg (Option.any fun kind => decide (kind = "package_group")) (hclass name)
    simpa only [Option.any_map, Function.comp_def] using hmap
  rw [HashContext.groupOf, HashContext.groupOf, (hs.rules packageGroup).rule]
  simp only [hany]

theorem visibilityStep_related (hc : ContextRel P c₁ c₂) {v₁ v₂ : HashContext.Visit D}
    (hv : VisitRel P Q c₁ c₂ v₁ v₂) (canonicalKey : String) (path : List String)
    {f₁ f₂ : HashState D × TargetDigestBuilder} (hf : FedRel P Q c₁ c₂ f₁ f₂)
    (packageGroup : String) :
    Related (FedRel P Q c₁ c₂) (c₁.visibilityStep v₁ canonicalKey path f₁ packageGroup)
      (c₂.visibilityStep v₂ canonicalKey path f₂ packageGroup) := by
  obtain ⟨s₁, b₁⟩ := f₁
  obtain ⟨s₂, b₂⟩ := f₂
  obtain ⟨hs, hb⟩ := hf
  have hgroup : c₁.groupOf s₁ packageGroup = c₂.groupOf s₂ packageGroup := by
    refine groupOf_related hs (fun name => ?_) packageGroup
    rcases (hc.nodes name).dest with ⟨h₁, h₂⟩ | ⟨n₁, n₂, h₁, h₂, hn⟩
    · rw [h₁, h₂]
    · rw [h₁, h₂, Option.map_some, Option.map_some, hn.ruleClass]
  rw [HashContext.visibilityStep_eq, HashContext.visibilityStep_eq, hgroup]
  split_ifs
  · exact .ok ⟨hs, hb⟩
  · cases c₂.groupOf s₂ packageGroup with
    | none => exact .ok ⟨hs, hb⟩
    | some group =>
        have hprior := (hs.completed packageGroup packageGroup).map fun _ _ hd => hd.overall
        refine Related.bind (visitOverall_related hv hs path group hprior) ?_
        rintro ⟨a, d⟩ ⟨b, e⟩ ⟨hab, hde⟩
        exact .ok ⟨hab, (hb.feedDirect _).transitive packageGroup packageGroup hde⟩

omit [HashFunction D] in
theorem RecorderRel.recordRule {r₁ r₂ : RecipeRecorder} (h : RecorderRel Q r₁ r₂) (key : String)
    (recipe : RuleRecipe) :
    RecorderRel Q (r₁.recordRule key recipe) (r₂.recordRule key recipe) where
  subincludes := h.subincludes
  recipes := by
    exact congrArg (fun recipes : PartialRecipes =>
      { recipes with rules := recipes.rules.insert key recipe }) h.recipes
  loading := h.loading

theorem finishNode_related {s₁ s₂ : HashState D} (hs : StateRel P Q c₁ c₂ s₁ s₂)
    {b₁ b₂ : TargetDigestBuilder} (hb : BuilderRel P b₁ b₂) (key : String) :
    VisitedRel P Q c₁ c₂ (HashContext.finishNode s₁ key b₁)
      (HashContext.finishNode s₂ key b₂) := by
  obtain ⟨hrecipe, hdigest⟩ := hb.finish (D := D)
  refine ⟨{ hs with digests := hs.digests.insert key hdigest, recorder := ?_ }, hdigest⟩
  dsimp only [HashContext.finishNode]
  rw [hrecipe]
  rcases hs.recorder.dest with ⟨h₁, h₂⟩ | ⟨r₁, r₂, h₁, h₂, hr⟩
  · rw [h₁, h₂]
    exact .none
  · rw [h₁, h₂]
    cases (b₂.finish : TargetDigest D × _).2 with
    | none => exact .some hr
    | some recipe => exact .some (hr.recordRule key recipe)

theorem enterNode_related (hc : ContextRel P c₁ c₂) {v₁ v₂ : HashContext.Visit D}
    (hv : VisitRel P Q c₁ c₂ v₁ v₂) {name : String} {n₁ n₂ : RuleNode D}
    (h₁ : c₁.nodes[name]? = some n₁) (h₂ : c₂.nodes[name]? = some n₂)
    (hn : NodeRel c₁ c₂ n₁ n₂) (path : List String) {s₁ s₂ : HashState D}
    (hs : StateRel P Q c₁ c₂ s₁ s₂) :
    Related (VisitedRel P Q c₁ c₂) (c₁.enterNode v₁ n₁ path s₁)
      (c₂.enterNode v₂ n₂ path s₂) := by
  have hloops : ∀ (more : List String) {f₁ f₂ : HashState D × TargetDigestBuilder},
      FedRel P Q c₁ c₂ f₁ f₂ → Related (VisitedRel P Q c₁ c₂)
        (do
          let fed ← (c₁.inputsOf n₁ ++ more).zipIdx.foldlM
            (c₁.inputStep v₁ n₁ (n₁.rule.name :: path)) f₁
          let fed ← (c₁.visibilityOf n₁.rule).foldlM
            (c₁.visibilityStep v₁ n₁.rule.name (n₁.rule.name :: path)) (fed.1, fed.2)
          return HashContext.finishNode fed.1 n₁.rule.name fed.2)
        (do
          let fed ← (c₁.inputsOf n₁ ++ more).zipIdx.foldlM
            (c₂.inputStep v₂ n₂ (n₁.rule.name :: path)) f₂
          let fed ← (c₁.visibilityOf n₁.rule).foldlM
            (c₂.visibilityStep v₂ n₁.rule.name (n₁.rule.name :: path)) (fed.1, fed.2)
          return HashContext.finishNode fed.1 n₁.rule.name fed.2) := by
    intro more f₁ f₂ hf
    refine Related.bind (Related.foldlM (fun input hinput a b hab =>
      inputStep_related hc hv h₁ h₂ hn _ hinput hab) hf) fun a b hab => ?_
    refine Related.bind (Related.foldlM (fun packageGroup _ a b hab =>
      visibilityStep_related hc hv _ _ hab packageGroup) hab) fun a b hab => ?_
    exact .ok (finishNode_related hab.1 hab.2 _)
  rw [HashContext.enterNode, HashContext.enterNode]
  refine Related.bind (startDigest_related hc hs hn) ?_
  rintro ⟨a, b₁⟩ ⟨b, b₂⟩ ⟨hab, hb⟩
  dsimp only at hab hb ⊢
  rw [← hn.name, ← hn.inputs, ← hn.visibility, ← hn.shared]
  cases n₁.prepared.sharedInputs with
  | none => simpa only [List.append_nil] using hloops [] ⟨hab, hb⟩
  | some group =>
      dsimp only
      rcases (applyRepositoryInputs_related hab hb group).dest with
        ⟨ha₁, ha₂⟩ | ⟨⟨s, b'⟩, ⟨t, e'⟩, ha₁, ha₂, hf⟩
      · rw [ha₁, ha₂]
        exact hloops group.labels ⟨hab, hb⟩
      · rw [ha₁, ha₂]
        simpa only [List.append_nil] using hloops [] hf

theorem nodeStep_related (hc : ContextRel P c₁ c₂) {v₁ v₂ : HashContext.Visit D}
    (hv : VisitRel P Q c₁ c₂ v₁ v₂) :
    VisitRel P Q c₁ c₂ (c₁.nodeStep v₁) (c₂.nodeStep v₂) := by
  intro name path s₁ s₂ hs
  rw [HashContext.nodeStep, HashContext.nodeStep]
  rcases (hs.digests name).dest with ⟨hd₁, hd₂⟩ | ⟨d₁, d₂, hd₁, hd₂, hd⟩
  · rcases (hc.nodes name).dest with ⟨h₁, h₂⟩ | ⟨n₁, n₂, h₁, h₂, hn⟩
    · simp only [hd₁, hd₂, h₁, h₂]
      exact .error _
    · simp only [hd₁, hd₂, h₁, h₂]
      split_ifs
      · refine .ok ⟨hs, ?_⟩
        rw [HashContext.placeholder, HashContext.placeholder, hn.definition]
        exact DigestRel.refl _
      · exact enterNode_related hc hv h₁ h₂ hn path hs
  · simp only [hd₁, hd₂]
    exact .ok ⟨hs, hd⟩

/-- Visits of related contexts keep related states related, at every depth. -/
theorem nodeDigest_related (hc : ContextRel P c₁ c₂) (fuel : Nat) :
    VisitRel P Q c₁ c₂ (c₁.nodeDigest fuel) (c₂.nodeDigest fuel) := by
  induction fuel with
  | zero => exact fun _ _ _ _ _ => .error _
  | succ fuel ih => exact nodeStep_related hc ih

theorem ruleDigest_related (hc : ContextRel P c₁ c₂) {s₁ s₂ : HashState D}
    (hs : StateRel P Q c₁ c₂ s₁ s₂) (key : String) :
    Related (VisitedRel P Q c₁ c₂) (c₁.ruleDigest s₁ key) (c₂.ruleDigest s₂ key) := by
  have hdepth : c₁.depth = c₂.depth := by
    rw [HashContext.depth, HashContext.depth, hc.nodes.size_eq]
  rw [HashContext.ruleDigest_eq, HashContext.ruleDigest_eq, (hs.rules key).rule, hdepth]
  rcases (hs.prior key).dest with ⟨h₁, h₂⟩ | ⟨d₁, d₂, h₁, h₂, hd⟩
  · simp only [h₁, h₂]
    refine Related.bind (Related.refl (fun _ => rfl) _) fun node node' hnode => ?_
    obtain rfl : node = node' := hnode
    exact nodeDigest_related hc _ node [] _ _ hs
  · simp only [h₁, h₂]
    exact .ok ⟨hs, hd⟩

end Steps

end BazelDiff
