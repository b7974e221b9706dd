/-
# Evaluating the same recipes against two trees

Whether an evaluation succeeds depends on the trees only through which labels name a
tracked file. Two evaluations of the same recipes against trees that agree on this
succeed together; what they compute has the kinds they were asked for, and agrees when
the digests of the sources do.
-/

import BazelDiff.Lib.Outcome
import BazelDiff.Lib.Pointwise
import BazelDiff.Partial.Evaluate

namespace BazelDiff

open Text HashFunction Outcome

variable {D : Type} [HashFunction D]

/-- Two evaluators of the same recipes. -/
structure EvaluatorRel (P : Prop) (e₁ e₂ : Evaluator D) : Prop where
  rules : e₁.recipes.rules = e₂.recipes.rules
  generated : e₁.recipes.generated = e₂.recipes.generated
  sources : Pointwise (AgreeIf P) e₁.sourceDigests e₂.sourceDigests
  soft : ∀ label, Option.Rel (AgreeIf P) (softDigest e₁.tree label : Option D)
    (softDigest e₂.tree label)

omit [HashFunction D] in
structure CacheRel (P : Prop) (m₁ m₂ : EvaluatorCache D) : Prop where
  soft : Pointwise (Option.Rel (AgreeIf P)) m₁.softDigests m₂.softDigests
  cache : Pointwise (AgreeIf P) m₁.cache m₂.cache

namespace Evaluator

variable {P : Prop} {e₁ e₂ : Evaluator D}

/-- Related caches with values that agree. -/
def CachedRel (P : Prop) {α : Type} (a b : EvaluatorCache D × α) : Prop :=
  CacheRel P a.1 b.1 ∧ AgreeIf P a.2 b.2

/-- Two ways to visit rules that keep related caches related. -/
def VisitRel (P : Prop) (v₁ v₂ : Visit D) : Prop :=
  ∀ key path m₁ m₂, CacheRel P m₁ m₂ → Related (CachedRel P) (v₁ key path m₁) (v₂ key path m₂)

theorem source_related (he : EvaluatorRel P e₁ e₂) (key : String) {m₁ m₂ : EvaluatorCache D}
    (hm : CacheRel P m₁ m₂) (label : String) :
    Related (CachedRel P) (e₁.source key m₁ label) (e₂.source key m₂ label) := by
  rw [source, source]
  rcases (he.sources label).dest with ⟨h₁, h₂⟩ | ⟨d₁, d₂, h₁, h₂, hd⟩
  · simp only [h₁, h₂]
    have hsoft : Option.Rel (AgreeIf P)
        ((m₁.softDigests[label]?).getD (softDigest e₁.tree label))
        ((m₂.softDigests[label]?).getD (softDigest e₂.tree label)) := by
      rcases (hm.soft label).dest with ⟨hs₁, hs₂⟩ | ⟨s₁, s₂, hs₁, hs₂, hs⟩
      · rw [hs₁, hs₂]
        exact he.soft label
      · rw [hs₁, hs₂]
        exact hs
    have hmemo := hm.soft.insertIfNew label hsoft
    rcases hsoft.dest with ⟨hs₁, hs₂⟩ | ⟨d₁, d₂, hs₁, hs₂, hd⟩
    · simp only [hs₁, hs₂]
      exact .error _
    · rw [hs₁, hs₂] at hmemo
      simp only [hs₁, hs₂]
      exact .ok ⟨{ hm with soft := hmemo }, hd⟩
  · simp only [h₁, h₂]
    exact .ok ⟨hm, hd⟩

theorem feedSource_related (he : EvaluatorRel P e₁ e₂) (key : String)
    {f₁ f₂ : EvaluatorCache D × List UInt8} (hf : CachedRel P f₁ f₂) (label : String) :
    Related (CachedRel P) (e₁.feedSource key f₁ label) (e₂.feedSource key f₂ label) := by
  refine Related.bind (source_related he key hf.1 label) fun a b hab => .ok ⟨hab.1, fun hP => ?_⟩
  dsimp only
  rw [hf.2 hP, hab.2 hP]

theorem feedDep_related {v₁ v₂ : Visit D} (hv : VisitRel P v₁ v₂)
    (path : List String) {f₁ f₂ : EvaluatorCache D × List UInt8} (hf : CachedRel P f₁ f₂)
    (dep : String) : Related (CachedRel P) (feedDep v₁ path f₁ dep) (feedDep v₂ path f₂ dep) := by
  refine Related.bind (hv dep path _ _ hf.1) fun a b hab => .ok ⟨hab.1, fun hP => ?_⟩
  dsimp only
  rw [hf.2 hP, hab.2 hP]

theorem ruleStep_related (he : EvaluatorRel P e₁ e₂) {v₁ v₂ : Visit D}
    (hv : VisitRel P v₁ v₂) : VisitRel P (e₁.ruleStep v₁) (e₂.ruleStep v₂) := by
  intro key path m₁ m₂ hm
  rw [ruleStep, ruleStep, he.rules]
  rcases (hm.cache key).dest with ⟨h₁, h₂⟩ | ⟨d₁, d₂, h₁, h₂, hd⟩
  · simp only [h₁, h₂]
    refine Related.bind (Related.refl (fun _ => rfl) _) fun recipe recipe' hrecipe => ?_
    obtain rfl : recipe = recipe' := hrecipe
    refine Related.bind (Related.refl (fun _ => rfl) _) fun fixed fixed' hfixed => ?_
    obtain rfl : fixed = fixed' := hfixed
    split_ifs
    · exact .ok ⟨hm, AgreeIf.refl _⟩
    · refine Related.bind (Related.foldlM (fun label _ a b hab =>
        feedSource_related he key hab label) ⟨hm, AgreeIf.refl _⟩) fun a b hab => ?_
      refine Related.bind (Related.foldlM (fun dep _ a b hab =>
        feedDep_related hv _ hab dep) ⟨hab.1, AgreeIf.refl _⟩) fun a' b' hab' => ?_
      have hdigests : AgreeIf P
          ((digest (a'.2 ++ bytes (digest a.2 : D)) : D), (digest a.2 : D))
          (digest (b'.2 ++ bytes (digest b.2 : D)), digest b.2) := by
        intro hP
        rw [hab.2 hP, hab'.2 hP]
      exact .ok ⟨{ hab'.1 with cache := hab'.1.cache.insert key hdigests }, hdigests⟩
  · simp only [h₁, h₂]
    exact .ok ⟨hm, hd⟩

theorem rule_related (he : EvaluatorRel P e₁ e₂) (fuel : Nat) :
    VisitRel P (e₁.rule fuel) (e₂.rule fuel) := by
  induction fuel with
  | zero => exact fun _ _ _ _ _ => .error _
  | succ fuel ih => exact ruleStep_related he ih

end Evaluator

/-- Two hashes of the same kind that agree if `P`. -/
def HashRel (P : Prop) (a b : TargetHash D) : Prop :=
  a.kind = b.kind ∧ AgreeIf P a b

/-- What two evaluations of the same recipes start from. -/
structure EvaluationRel (P : Prop) (e₁ e₂ : Evaluation D) : Prop where
  evaluator : EvaluatorRel P e₁.toEvaluator e₂.toEvaluator
  seedHash : e₁.seedHash = e₂.seedHash
  packageSeeds : AgreeIf P e₁.packageSeeds e₂.packageSeeds

theorem evaluateKind_related {P : Prop} {e₁ e₂ : Evaluation D} (he : EvaluationRel P e₁ e₂)
    {m₁ m₂ : EvaluatorCache D} (hm : CacheRel P m₁ m₂) (label kind : String) :
    Related (Evaluator.CachedRel P) (evaluateKind e₁ m₁ label kind)
      (evaluateKind e₂ m₂ label kind) := by
  have hdepth : e₁.depth = e₂.depth := by
    rw [Evaluator.depth, Evaluator.depth, he.evaluator.rules]
  rw [evaluateKind, evaluateKind]
  dsimp only
  split_ifs
  · rw [hdepth]
    exact Evaluator.rule_related he.evaluator _ _ _ _ _ hm
  · rw [he.evaluator.generated]
    refine Related.bind (Related.refl (fun _ => rfl) _) fun key key' hkey => ?_
    obtain rfl : key = key' := hkey
    rw [hdepth]
    exact Evaluator.rule_related he.evaluator _ _ _ _ _ hm
  · refine .ok ⟨hm, fun hP => ?_⟩
    have hsource : e₁.sourceDigests[label]? = e₂.sourceDigests[label]? := by
      rcases (he.evaluator.sources label).dest with ⟨h₁, h₂⟩ | ⟨d₁, d₂, h₁, h₂, hd⟩
      · rw [h₁, h₂]
      · rw [h₁, h₂, hd hP]
    rw [hsource, he.seedHash, he.packageSeeds hP]
  · exact .error _

theorem evaluateTarget_related {P : Prop} {e₁ e₂ : Evaluation D} (he : EvaluationRel P e₁ e₂)
    {f₁ f₂ : EvaluatorCache D × StringMap (TargetHash D)}
    (hf : CacheRel P f₁.1 f₂.1 ∧ Pointwise (HashRel P) f₁.2 f₂.2) (target : String × String) :
    Related (fun a b => CacheRel P a.1 b.1 ∧ Pointwise (HashRel P) a.2 b.2)
      (evaluateTarget e₁ f₁ target) (evaluateTarget e₂ f₂ target) := by
  refine Related.bind (evaluateKind_related he hf.1 target.1 target.2) ?_
  rintro ⟨m₁, d₁⟩ ⟨m₂, d₂⟩ ⟨hm, hd⟩
  refine .ok ⟨hm, hf.2.insert target.1 ⟨rfl, fun hP => ?_⟩⟩
  obtain rfl : d₁ = d₂ := hd hP
  rfl

/-- The digests of the source targets agree when the trees do. -/
theorem sourceDigests_related {P : Prop} {t₁ t₂ : TreeIndex} (htree : P → t₁ = t₂)
    (seed : String → List UInt8) (labels : List String) {m₁ m₂ : StringMap D}
    (hm : Pointwise (AgreeIf P) m₁ m₂) :
    Pointwise (AgreeIf P)
      (labels.foldl (fun digests label => digests.insert label
        (sourceDigest t₁ label (seed label))) m₁)
      (labels.foldl (fun digests label => digests.insert label
        (sourceDigest t₂ label (seed label))) m₂) := by
  induction labels generalizing m₁ m₂ with
  | nil => exact hm
  | cons label rest ih => exact ih (hm.insert label fun hP => by rw [htree hP])

/-- Trees that track the same files give related soft digests. -/
theorem softDigest_related {P : Prop} {t₁ t₂ : TreeIndex} (htree : P → t₁ = t₂) {label : String}
    (hsoft : (softDigest t₁ label : Option D).isSome = (softDigest t₂ label : Option D).isSome) :
    Option.Rel (AgreeIf P) (softDigest t₁ label : Option D) (softDigest t₂ label) := by
  cases h₁ : (softDigest t₁ label : Option D) with
  | none =>
      cases h₂ : (softDigest t₂ label : Option D) with
      | none => exact .none
      | some d₂ => simp [h₁, h₂] at hsoft
  | some d₁ =>
      cases h₂ : (softDigest t₂ label : Option D) with
      | none => simp [h₁, h₂] at hsoft
      | some d₂ =>
          refine .some fun hP => ?_
          have hsame : some d₁ = some d₂ := by rw [← h₁, ← h₂, htree hP]
          exact Option.some.inj hsame

theorem prepareEvaluation_related {P : Prop} {r₁ r₂ : PartialRecipes}
    (hrecipes : r₁.withoutLoading = r₂.withoutLoading) (targets : StringMap String)
    {t₁ t₂ : TreeIndex} (htree : P → t₁ = t₂)
    (hsoft : ∀ label,
      (softDigest t₁ label : Option D).isSome = (softDigest t₂ label : Option D).isSome) :
    Related (EvaluationRel P) (prepareEvaluation r₁ targets t₁ : Result (Evaluation D))
      (prepareEvaluation r₂ targets t₂) := by
  obtain ⟨hversion, hseedHash, hseeds, hsub, hrules, hgenerated⟩ :=
    PartialRecipes.fields_eq hrecipes
  rw [prepareEvaluation, prepareEvaluation, hversion, hseedHash, hseeds, hsub]
  by_cases hv : r₂.version ≠ recipeVersion
  · rw [if_pos hv, if_pos hv]
    exact .error _
  · rw [if_neg hv, if_neg hv]
    refine Related.bind (Related.refl (fun _ => rfl) _) fun seed seed' hseed => ?_
    obtain rfl : seed = seed' := hseed
    refine .ok ⟨⟨hrules, hgenerated, sourceDigests_related htree _ _ Pointwise.empty,
      fun label => softDigest_related htree (hsoft label)⟩, rfl, fun hP => ?_⟩
    dsimp only
    rw [packageSeeds, packageSeeds, hsub, htree hP]

/-- Two evaluations of the same recipes succeed together when the trees track the same files,
and compute the same hashes when the trees are the same. -/
theorem evaluate_related {P : Prop} {r₁ r₂ : PartialRecipes}
    (hrecipes : r₁.withoutLoading = r₂.withoutLoading) (targets : StringMap String)
    {t₁ t₂ : TreeIndex} (htree : P → t₁ = t₂)
    (hsoft : ∀ label,
      (softDigest t₁ label : Option D).isSome = (softDigest t₂ label : Option D).isSome) :
    Related (Pointwise (HashRel P)) (evaluate r₁ targets t₁ : Result (StringMap (TargetHash D)))
      (evaluate r₂ targets t₂) := by
  rw [evaluate, evaluate]
  refine Related.bind (prepareEvaluation_related hrecipes targets htree hsoft) fun e₁ e₂ he => ?_
  refine Related.bind (Related.foldlM (fun target _ a b hab =>
    evaluateTarget_related he hab target) ?_) fun a b hab => .ok hab.2
  exact ⟨⟨Pointwise.empty, Pointwise.empty⟩, Pointwise.empty⟩

/-- The hashes answer exactly the targets of a list. -/
def Answers (done : List (String × String)) (hashes : StringMap (TargetHash D)) : Prop :=
  ∀ label kind, (hashes[label]?).map (·.kind) = some kind ↔ (label, kind) ∈ done

/-- An evaluation answers exactly the labels it was asked for, with their kinds. -/
theorem targetKinds_evaluate {recipes : PartialRecipes} {targets : StringMap String}
    {tree : TreeIndex} {hashes : StringMap (TargetHash D)}
    (h : evaluate recipes targets tree = .ok hashes) : targetKinds hashes = targets := by
  rw [evaluate] at h
  obtain ⟨evaluation, -, h⟩ := bind_eq_ok h
  obtain ⟨⟨memo, result⟩, hloop, h⟩ := bind_eq_ok h
  obtain rfl : result = hashes := by cases h; rfl
  have hinv : Ensures (fun state => Answers targets.toList state.2)
      (targets.toList.foldlM (evaluateTarget evaluation) ({}, ∅)) := by
    refine Ensures.foldlM_done
      (Q := fun done (state : EvaluatorCache D × StringMap (TargetHash D)) => Answers done state.2)
      (fun before target after hsplit state hstate => ?_) (by simp [Answers])
    rw [evaluateTarget]
    refine Ensures.bind (P := fun _ => True) (fun _ _ => trivial) fun digests _ => ?_
    refine Ensures.pure fun label kind => ?_
    dsimp only
    have hfresh : ∀ kind, (target.1, kind) ∈ before → False := by
      intro kind' hmem
      have hdistinct := targets.distinct_keys_toList
      rw [hsplit, List.pairwise_append] at hdistinct
      exact hdistinct.2.2 _ hmem target List.mem_cons_self Std.ReflOrd.compare_self
    rw [Std.ExtTreeMap.getElem?_insert, List.mem_append, List.mem_singleton]
    by_cases hlabel : target.1 = label
    · subst hlabel
      simp only [Std.ReflOrd.compare_self, if_true, Option.map_some, Option.some.injEq]
      constructor
      · rintro rfl
        exact Or.inr rfl
      · rintro (hmem | hmem)
        · exact (hfresh kind hmem).elim
        · rw [← hmem]
    · have hcmp : compare target.1 label ≠ .eq := fun hc =>
        hlabel (Std.LawfulEqOrd.eq_of_compare hc)
      rw [if_neg hcmp, hstate label kind, or_iff_left]
      rintro rfl
      exact hlabel rfl
  refine Std.ExtTreeMap.ext_getElem? fun label => Option.ext fun kind => ?_
  rw [targetKinds, Std.ExtTreeMap.getElem?_map, hinv _ hloop,
    Std.ExtTreeMap.mem_toList_iff_getElem?_eq_some]

end BazelDiff
