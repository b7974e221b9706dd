/-
# Two generations in lockstep

What the lockstep of two traversals means for the hash files they end in: the same
edges, the same recipes, the same labels with the same kinds, and the same hashes when
the source digests agree.
-/

import BazelDiff.Hash.Intake
import BazelDiff.Hash.TwoRuns
import BazelDiff.Partial.Reevaluate

namespace BazelDiff

open Text HashFunction Outcome

variable {D : Type} [HashFunction D] {P Q : Prop}

/-! ## Walking the targets -/

structure KeyedRel (P : Prop) (a b : KeyedDigest D) : Prop where
  key : a.key = b.key
  kind : a.kind = b.kind
  digest : DigestRel P a.digest b.digest

omit [HashFunction D] in
theorem KeyedRel.eq (hP : P) {a b : KeyedDigest D} (h : KeyedRel P a b) : a = b := by
  cases a
  cases b
  exact KeyedDigest.mk.injEq .. ▸ ⟨h.key, h.kind, h.digest.agree hP⟩

theorem hashTarget_related {c₁ c₂ : HashContext D} (hc : ContextRel P c₁ c₂)
    {s₁ s₂ : HashState D} (hs : StateRel P Q c₁ c₂ s₁ s₂) (target : HashTarget) :
    Related (fun a b => StateRel P Q c₁ c₂ a.1 b.1 ∧ KeyedRel P a.2 b.2)
      (hashTarget c₁ s₁ target) (hashTarget c₂ s₂ target) := by
  cases target with
  | rule key =>
      refine Related.bind (ruleDigest_related hc hs key) ?_
      rintro ⟨a, d⟩ ⟨b, e⟩ ⟨hab, hde⟩
      exact .ok ⟨hab, rfl, rfl, hde⟩
  | generated name generatingRule =>
      rw [hashTarget, hashTarget, hc.trackDeps]
      refine Related.bind (ruleDigest_related hc hs generatingRule) ?_
      rintro ⟨a, d⟩ ⟨b, e⟩ ⟨hab, hde⟩
      refine .ok ⟨hab, rfl, rfl, rfl, fun hP => ?_⟩
      obtain rfl : d = e := hde.agree hP
      rfl
  | source label =>
      refine .ok ⟨hs, rfl, rfl, rfl, fun hP => ?_⟩
      have hsource : (s₁.rules.find label).source = (s₂.rules.find label).source := by
        rcases (hs.rules label).source.dest with ⟨h₁, h₂⟩ | ⟨d₁, d₂, h₁, h₂, hd⟩
        · rw [h₁, h₂]
        · rw [h₁, h₂, hd hP]
      rw [hsource, hc.seedHash, hc.packageBzlSeeds]

/-- What two generations start their traversals from. -/
structure PreparedRel (P Q : Prop) (p₁ p₂ : Prepared D) : Prop where
  context : ContextRel P p₁.context p₂.context
  state : StateRel P Q p₁.context p₂.context p₁.state p₂.state
  targets : p₁.targets = p₂.targets

theorem run_related {p₁ p₂ : Prepared D} (h : PreparedRel P Q p₁ p₂) :
    Related (fun a b => StateRel P Q p₁.context p₂.context a.1 b.1 ∧
      List.Forall₂ (KeyedRel P) a.2 b.2) p₁.run p₂.run := by
  rw [Prepared.run, Prepared.run, h.targets]
  refine Related.foldlM (fun target _ a b hab => ?_) ⟨h.state, .nil⟩
  refine Related.bind (hashTarget_related h.context hab.1 target) ?_
  rintro ⟨s, k⟩ ⟨t, l⟩ ⟨hst, hkl⟩
  exact .ok ⟨hst, List.rel_append hab.2 (.cons hkl .nil)⟩

/-! ## Collecting the hashes by label -/

structure LabelMapsRel (P : Prop) (a b : LabelMaps D) : Prop where
  hashes : Pointwise (HashRel P) a.hashes b.hashes
  depEdges : a.depEdges = b.depEdges

omit [HashFunction D] in
theorem forall₂_keyedRel_eq (hP : P) {as bs : List (KeyedDigest D)}
    (h : List.Forall₂ (KeyedRel P) as bs) : as = bs :=
  List.forall₂_eq_eq_eq ▸ h.imp fun _ _ hab => hab.eq hP

omit [HashFunction D] in
theorem labelDeps_related {as bs : List (KeyedDigest D)} (h : List.Forall₂ (KeyedRel P) as bs) :
    labelDeps as = labelDeps bs := by
  have hdeps : as.map (·.digest.deps) = bs.map (·.digest.deps) := by
    rw [← List.forall₂_eq_eq_eq, List.forall₂_map_left_iff, List.forall₂_map_right_iff]
    exact h.imp fun _ _ hab => hab.digest.deps
  have hfilter : ∀ ds : List (KeyedDigest D),
      ds.filterMap (·.digest.deps) = (ds.map (·.digest.deps)).filterMap id := by
    intro ds
    rw [List.filterMap_map]
    rfl
  rw [labelDeps, labelDeps, hfilter as, hfilter bs, hdeps]

theorem insertLabel_related (trackDeps : Bool) {m₁ m₂ : LabelMaps D} (hm : LabelMapsRel P m₁ m₂)
    {as bs : List (KeyedDigest D)} (h : List.Forall₂ (KeyedRel P) as bs) :
    LabelMapsRel P (m₁.insertLabel trackDeps as) (m₂.insertLabel trackDeps bs) := by
  have hdeps := labelDeps_related h
  cases h with
  | nil => exact hm
  | @cons a b as bs hab hrest =>
      have hlabel : a.label = b.label := by rw [KeyedDigest.label, KeyedDigest.label, hab.key]
      have hhash : HashRel P (labelHash a as) (labelHash b bs) :=
        ⟨hab.kind, fun hP => by rw [hab.eq hP, forall₂_keyedRel_eq hP hrest]⟩
      refine ⟨?_, ?_⟩
      · simpa only [LabelMaps.insertLabel, hlabel] using hm.hashes.insert b.label hhash
      · simp only [LabelMaps.insertLabel, hlabel, hdeps, hm.depEdges]

omit [HashFunction D] in
theorem isSortedBy_related {α : Type} {R : α → α → Prop} {r : α → α → Bool}
    (hr : ∀ a b a' b', R a a' → R b b' → r a b = r a' b') {as bs : List α}
    (h : List.Forall₂ R as bs) : isSortedBy r as = isSortedBy r bs := by
  induction h with
  | nil => rfl
  | cons hab hrest ih =>
      cases hrest with
      | nil => rfl
      | cons hcd _ => rw [isSortedBy, isSortedBy, ih, hr _ _ _ _ hab hcd]

theorem groupStep_related (trackDeps : Bool)
    {f₁ f₂ : LabelMaps D × List (KeyedDigest D)}
    (hf : LabelMapsRel P f₁.1 f₂.1 ∧ List.Forall₂ (KeyedRel P) f₁.2 f₂.2) {a b : KeyedDigest D}
    (hab : KeyedRel P a b) :
    LabelMapsRel P (groupStep trackDeps f₁ a).1 (groupStep trackDeps f₂ b).1 ∧
      List.Forall₂ (KeyedRel P) (groupStep trackDeps f₁ a).2 (groupStep trackDeps f₂ b).2 := by
  have hlabels : f₁.2.map (·.label) = f₂.2.map (·.label) := by
    rw [← List.forall₂_eq_eq_eq, List.forall₂_map_left_iff, List.forall₂_map_right_iff]
    exact hf.2.imp fun _ _ h => by rw [KeyedDigest.label, KeyedDigest.label, h.key]
  have hlabel : a.label = b.label := by rw [KeyedDigest.label, KeyedDigest.label, hab.key]
  have hclose : (f₁.2.getLast?.any fun last => last.label ≠ a.label) =
      f₂.2.getLast?.any fun last => last.label ≠ b.label := by
    have hlast := congrArg (fun labels : List String =>
      labels.getLast?.any fun label => decide (label ≠ b.label)) hlabels
    simpa only [List.getLast?_map, Option.any_map, Function.comp_def, hlabel] using hlast
  rw [groupStep, groupStep, hclose]
  split_ifs
  · exact ⟨insertLabel_related trackDeps hf.1 hf.2, .cons hab .nil⟩
  · exact ⟨hf.1, List.rel_append hf.2 (.cons hab .nil)⟩

/-- Related digests are collected into related maps. -/
theorem aggregateByLabel_related (trackDeps : Bool) {as bs : List (KeyedDigest D)}
    (h : List.Forall₂ (KeyedRel P) as bs) :
    LabelMapsRel P (aggregateByLabel as trackDeps) (aggregateByLabel bs trackDeps) := by
  have hlabel : ∀ {a b : KeyedDigest D}, KeyedRel P a b → a.label = b.label := fun hab => by
    rw [KeyedDigest.label, KeyedDigest.label, hab.key]
  have hempty : LabelMapsRel P ({} : LabelMaps D) {} := ⟨Pointwise.empty, rfl⟩
  have hsorted : isSortedBy (fun a b : KeyedDigest D => decide (a.label < b.label)) as =
      isSortedBy (fun a b => decide (a.label < b.label)) bs :=
    isSortedBy_related (fun _ _ _ _ hab hcd => by rw [hlabel hab, hlabel hcd]) h
  have hbefore : ∀ a b a' b' : KeyedDigest D, KeyedRel P a b → KeyedRel P a' b' →
      (a.before a' ↔ b.before b') := by
    intro a b a' b' hab hab'
    rw [KeyedDigest.before, KeyedDigest.before, hlabel hab, hlabel hab', hab.key, hab'.key]
  rw [aggregateByLabel, aggregateByLabel, hsorted]
  split_ifs
  · exact List.rel_foldl (P := LabelMapsRel P) (R := KeyedRel P)
      (fun m₁ m₂ hm a b hab => insertLabel_related trackDeps hm (.cons hab .nil)) hempty h
  · have hfold := List.rel_foldl (R := KeyedRel P)
      (P := fun f₁ f₂ : LabelMaps D × List (KeyedDigest D) =>
        LabelMapsRel P f₁.1 f₂.1 ∧ List.Forall₂ (KeyedRel P) f₁.2 f₂.2)
      (fun f₁ f₂ hf a b hab => groupStep_related trackDeps hf hab)
      (show LabelMapsRel P (({}, []) : LabelMaps D × List (KeyedDigest D)).1
          (({}, []) : LabelMaps D × List (KeyedDigest D)).1 ∧ _ from ⟨hempty, .nil⟩)
      (Sorting.forall₂_insertionSort hbefore h)
    exact insertLabel_related trackDeps hfold.1 hfold.2

/-! ## The hash files -/

/-- Recipes that agree up to their loading inputs, and on those if `Q`. -/
def RecipesRel (Q : Prop) (r₁ r₂ : PartialRecipes) : Prop :=
  r₁.withoutLoading = r₂.withoutLoading ∧ AgreeIf Q r₁.loadInputs r₂.loadInputs

omit [HashFunction D] in
theorem RecorderRel.finish {r₁ r₂ : RecipeRecorder} (h : RecorderRel Q r₁ r₂) :
    RecipesRel Q r₁.finish r₂.finish := by
  obtain ⟨hrest₁, hload₁⟩ := r₁.finish_loading
  obtain ⟨hrest₂, hload₂⟩ := r₂.finish_loading
  refine ⟨?_, fun hQ => by rw [hload₁, hload₂, h.loading hQ]⟩
  rw [hrest₁, hrest₂]
  exact RecipeRecorder.finish_eq_of_same h.recipes h.subincludes

structure FileRel (P Q : Prop) (f₁ f₂ : HashFileData D) : Prop where
  hashes : Pointwise (HashRel P) f₁.hashes f₂.hashes
  depEdges : f₁.depEdges = f₂.depEdges
  recipes : Option.Rel (RecipesRel Q) f₁.partialGraph f₂.partialGraph

omit [HashFunction D] in
theorem targetKinds_related {h₁ h₂ : StringMap (TargetHash D)}
    (h : Pointwise (HashRel P) h₁ h₂) : targetKinds h₁ = targetKinds h₂ := by
  refine Std.ExtTreeMap.ext_getElem? fun label => ?_
  rw [targetKinds, targetKinds, Std.ExtTreeMap.getElem?_map, Std.ExtTreeMap.getElem?_map]
  rcases (h label).dest with ⟨h₁, h₂⟩ | ⟨a, b, h₁, h₂, hab⟩
  · rw [h₁, h₂]
  · rw [h₁, h₂, Option.map_some, Option.map_some, hab.1]

/-- Trees that track the same files, and are the same if `P`. -/
def TreeRel (D : Type) [HashFunction D] (P : Prop) (t₁ t₂ : TreeIndex) : Prop :=
  AgreeIf P t₁ t₂ ∧ ∀ label,
    (softDigest t₁ label : Option D).isSome = (softDigest t₂ label : Option D).isSome

theorem hashFile_related {o₁ o₂ : HashOptions} {e₁ e₂ : Environment D}
    (htrack : o₁.trackDeps = o₂.trackDeps)
    (htree : Option.Rel (TreeRel D P) o₁.partialTree o₂.partialTree) {s₁ s₂ : HashState D}
    (hs : Option.Rel (RecorderRel Q) s₁.recorder s₂.recorder) {as bs : List (KeyedDigest D)}
    (h : List.Forall₂ (KeyedRel P) as bs) :
    Related (FileRel P Q) (hashFile o₁ e₁ s₁ as) (hashFile o₂ e₂ s₂ bs) := by
  have hmaps := aggregateByLabel_related o₂.trackDeps h
  rw [hashFile, hashFile, htrack, targetKinds_related hmaps.hashes]
  rcases hs.dest with ⟨hr₁, hr₂⟩ | ⟨r₁, r₂, hr₁, hr₂, hr⟩
  · rw [hr₁, hr₂]
    exact .ok ⟨hmaps.hashes, hmaps.depEdges, .none⟩
  · rw [hr₁, hr₂]
    rcases htree.dest with ⟨ht₁, ht₂⟩ | ⟨t₁, t₂, ht₁, ht₂, ht⟩
    · rw [ht₁, ht₂]
      exact .ok ⟨hmaps.hashes, hmaps.depEdges, .none⟩
    · rw [ht₁, ht₂]
      refine Related.bind (evaluate_related hr.finish.1 _ ht.1 ht.2) fun a b hab => ?_
      exact .ok ⟨hab, hmaps.depEdges, .some hr.finish⟩

/-- Two generations that start in lockstep end in related hash files. -/
theorem hashTargetsWithEnvironment_related {o₁ o₂ : HashOptions} {targets₁ targets₂ : List Target}
    {digests₁ digests₂ : PreparedRules D} {e₁ e₂ : Environment D}
    (htrack : o₁.trackDeps = o₂.trackDeps)
    (htree : Option.Rel (TreeRel D P) o₁.partialTree o₂.partialTree)
    (hprepared : Related (PreparedRel P Q) (prepareTargets o₁ targets₁ digests₁ e₁)
      (prepareTargets o₂ targets₂ digests₂ e₂)) :
    Related (FileRel P Q) (hashTargetsWithEnvironment o₁ targets₁ digests₁ e₁)
      (hashTargetsWithEnvironment o₂ targets₂ digests₂ e₂) := by
  refine Related.bind hprepared fun p₁ p₂ hp => ?_
  refine Related.bind (run_related hp) fun a b hab => ?_
  exact hashFile_related htrack htree hab.1.recorder hab.2

end BazelDiff
