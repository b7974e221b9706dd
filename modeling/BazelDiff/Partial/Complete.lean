/-
# Recipes that can be evaluated

An evaluation looks every dependency and every source up by its bare key. It succeeds when
the recipes are complete: every digest in them decodes, every source is a source target or a
tracked file, and every dependency has a recipe. A rule that was evaluated has only
dependencies with recipes.
-/

import BazelDiff.Partial.Evaluate
import BazelDiff.Lib.Outcome

namespace BazelDiff

open Text HashFunction Outcome

variable {D : Type} [HashFunction D]

/-- The computation succeeds, with a result that satisfies `Q`. -/
abbrev Succeeds {α : Type} (Q : α → Prop) (x : Result α) : Prop :=
  Meets (fun _ => False) Q x

theorem Succeeds.exists_ok {α : Type} {Q : α → Prop} {x : Result α} (h : Succeeds Q x) :
    ∃ a, x = .ok a ∧ Q a := by
  cases h with
  | error h => exact h.elim
  | ok h => exact ⟨_, rfl, h⟩

namespace Evaluator

variable {evaluator : Evaluator D}

/-- A source input is a source target or a tracked file. -/
def CanFeed (evaluator : Evaluator D) (label : String) : Prop :=
  label ∈ evaluator.sourceDigests ∨ (softDigest evaluator.tree label : Option D).isSome = true

/-- Everything a recipe names is there. -/
structure Complete (evaluator : Evaluator D) : Prop where
  fixed : ∀ (key : String) recipe, evaluator.recipes.rules[key]? = some recipe →
    ∃ d : D, recipe.staticDigest = .ok d
  sources : ∀ (key : String) recipe, evaluator.recipes.rules[key]? = some recipe →
    ∀ label ∈ recipe.sources, evaluator.CanFeed label
  deps : ∀ (key : String) recipe, evaluator.recipes.rules[key]? = some recipe →
    ∀ dep ∈ recipe.deps, dep ∈ evaluator.recipes.rules

/-- The cached digests of tracked files are those of the tree. -/
def SoftCached (evaluator : Evaluator D) (memo : EvaluatorCache D) : Prop :=
  ∀ (label : String) soft, memo.softDigests[label]? = some soft →
    soft = softDigest evaluator.tree label

theorem source_succeeds {label : String} (hfeed : evaluator.CanFeed label) (key : String)
    {memo : EvaluatorCache D} (hmemo : evaluator.SoftCached memo) :
    Succeeds (fun result => evaluator.SoftCached result.1) (evaluator.source key memo label) := by
  rw [source]
  cases hsource : evaluator.sourceDigests[label]? with
  | some d => exact .ok hmemo
  | none =>
      have hsoft : (memo.softDigests[label]?).getD (softDigest evaluator.tree label) =
          softDigest evaluator.tree label := by
        cases hcached : memo.softDigests[label]? with
        | none => rfl
        | some soft => exact hmemo label soft hcached
      have hkept : evaluator.SoftCached { memo with
          softDigests := memo.softDigests.insertIfNew label (softDigest evaluator.tree label) } := by
        intro other soft hother
        dsimp only at hother
        rw [Std.ExtTreeMap.getElem?_insertIfNew] at hother
        split_ifs at hother with hnew
        · obtain rfl := Std.LawfulEqOrd.eq_of_compare hnew.1
          exact (Option.some.inj hother).symm
        · exact hmemo other soft hother
      have htracked : (softDigest evaluator.tree label : Option D).isSome = true := by
        rcases hfeed with hmem | hsome
        · rw [Std.ExtTreeMap.mem_iff_isSome_getElem?, hsource] at hmem
          cases hmem
        · exact hsome
      obtain ⟨d, hd⟩ := Option.isSome_iff_exists.mp htracked
      dsimp only
      rw [hsoft, hd]
      rw [hd] at hkept
      exact .ok hkept

/-- Complete recipes are evaluated, whatever the path and the caches. -/
theorem rule_succeeds (h : evaluator.Complete) (fuel : Nat) {path : List String}
    (hnodup : path.Nodup) (hpath : ∀ key ∈ path, key ∈ evaluator.recipes.rules)
    (hfuel : evaluator.recipes.rules.size < fuel + path.length) {key : String}
    (hkey : key ∈ evaluator.recipes.rules) {memo : EvaluatorCache D}
    (hmemo : evaluator.SoftCached memo) :
    Succeeds (fun result => evaluator.SoftCached result.1) (evaluator.rule fuel key path memo) := by
  induction fuel generalizing path key memo with
  | zero =>
      exfalso
      have hsub : path.Subperm evaluator.recipes.rules.keys :=
        List.subperm_of_subset hnodup fun key hkey => Std.ExtTreeMap.mem_keys.mpr (hpath key hkey)
      have hlength := hsub.length_le
      rw [Std.ExtTreeMap.length_keys] at hlength
      omega
  | succ fuel ih =>
      obtain ⟨recipe, hrecipe⟩ :=
        Option.isSome_iff_exists.mp (Std.ExtTreeMap.mem_iff_isSome_getElem?.mp hkey)
      obtain ⟨fixed, hfixed⟩ := h.fixed key recipe hrecipe
      rw [rule, ruleStep]
      cases hcached : memo.cache[key]? with
      | some digests => exact .ok hmemo
      | none =>
          have hfound : Succeeds (fun found => found = recipe)
              (okOr ("recipes hold no rule " ++ key) evaluator.recipes.rules[key]?) := by
            rw [hrecipe]
            exact .ok rfl
          have hdecoded : Succeeds (fun d => d = fixed) (recipe.staticDigest : Result D) := by
            rw [hfixed]
            exact .ok rfl
          apply Meets.bind hfound
          intro found heq
          subst found
          apply Meets.bind hdecoded
          intro decoded heq
          subst decoded
          split_ifs with honpath
          · exact .ok hmemo
          · have hsources : Succeeds (fun fed : EvaluatorCache D × List UInt8 =>
                evaluator.SoftCached fed.1)
                (recipe.sources.foldlM (evaluator.feedSource key) (memo, bytes fixed)) := by
              apply Meets.foldlM
              · rintro label hlabel ⟨memo, fed⟩ hmemo
                apply Meets.bind (source_succeeds (h.sources key recipe hrecipe label hlabel) key hmemo)
                rintro ⟨memo', d⟩ hmemo'
                exact .ok hmemo'
              · exact hmemo
            apply Meets.bind hsources
            rintro ⟨memo₁, direct⟩ hmemo₁
            have hdeps : Succeeds (fun fed : EvaluatorCache D × List UInt8 =>
                evaluator.SoftCached fed.1)
                (recipe.deps.foldlM (feedDep (evaluator.rule fuel) (key :: path)) (memo₁, [])) := by
              apply Meets.foldlM
              · rintro dep hdep ⟨memo, fed⟩ hmemo
                have hvisit := @ih (key :: path) (List.nodup_cons.mpr ⟨honpath, hnodup⟩)
                  (by
                    intro later hlater
                    rcases List.mem_cons.mp hlater with rfl | hlater
                    · exact hkey
                    · exact hpath later hlater)
                  (by rw [List.length_cons]; omega) dep (h.deps key recipe hrecipe dep hdep) memo hmemo
                apply Meets.bind hvisit
                rintro ⟨memo', digests⟩ hmemo'
                exact .ok hmemo'
              · exact hmemo₁
            apply Meets.bind hdeps
            rintro ⟨memo₂, overall⟩ hmemo₂
            exact .ok hmemo₂

/-! ## Evaluated rules have evaluated dependencies -/

/-- Every cached rule has a recipe, and its dependencies have recipes. -/
def CachedClosed (evaluator : Evaluator D) (memo : EvaluatorCache D) : Prop :=
  ∀ (key : String) digests, memo.cache[key]? = some digests →
    ∃ recipe, evaluator.recipes.rules[key]? = some recipe ∧
      ∀ dep ∈ recipe.deps, dep ∈ evaluator.recipes.rules

/-- An evaluated rule has a recipe, and is cached unless it is being evaluated. -/
theorem rule_closed (fuel : Nat) (key : String) (path : List String) {memo : EvaluatorCache D}
    (hmemo : evaluator.CachedClosed memo) :
    Ensures (fun result => evaluator.CachedClosed result.1 ∧ key ∈ evaluator.recipes.rules ∧
      (key ∉ path → key ∈ result.1.cache)) (evaluator.rule fuel key path memo) := by
  induction fuel generalizing key path memo with
  | zero => exact Ensures.error _
  | succ fuel ih =>
      rw [rule, ruleStep]
      cases hcached : memo.cache[key]? with
      | some digests =>
          obtain ⟨recipe, hrecipe, -⟩ := hmemo key digests hcached
          exact Ensures.pure ⟨hmemo, mem_of_getElem? hrecipe, fun _ => mem_of_getElem? hcached⟩
      | none =>
          intro result hresult
          obtain ⟨recipe, hrecipe, hresult⟩ := bind_eq_ok hresult
          obtain ⟨fixed, -, hresult⟩ := bind_eq_ok hresult
          have hmem : key ∈ evaluator.recipes.rules := mem_of_getElem? (okOr_eq_ok hrecipe)
          split_ifs at hresult with hpath
          · cases hresult
            exact ⟨hmemo, hmem, fun hnot => absurd hpath hnot⟩
          · obtain ⟨⟨memo₁, direct⟩, hsources, hresult⟩ := bind_eq_ok hresult
            obtain ⟨⟨memo₂, overall⟩, hdeps, hresult⟩ := bind_eq_ok hresult
            cases hresult
            have hmemo₁ : evaluator.CachedClosed memo₁ := by
              have hfed : Ensures (fun fed : EvaluatorCache D × List UInt8 =>
                  evaluator.CachedClosed fed.1)
                  (recipe.sources.foldlM (evaluator.feedSource key) (memo, bytes fixed)) := by
                apply Ensures.foldlM
                · intro label _ fed hfed next hnext
                  obtain ⟨⟨memo', d⟩, hd, hnext⟩ := bind_eq_ok hnext
                  cases hnext
                  rw [source] at hd
                  split at hd
                  · cases hd
                    exact hfed
                  · dsimp only at hd
                    split at hd
                    · cases hd
                      exact hfed
                    · cases hd
                · exact hmemo
              exact hfed _ hsources
            have hfed : Ensures (fun fed : EvaluatorCache D × List UInt8 =>
                evaluator.CachedClosed fed.1 ∧ ∀ dep ∈ recipe.deps, dep ∈ evaluator.recipes.rules)
                (recipe.deps.foldlM (feedDep (evaluator.rule fuel) (key :: path)) (memo₁, [])) := by
              apply Ensures.foldlM_done (Q := fun done (fed : EvaluatorCache D × List UInt8) =>
                evaluator.CachedClosed fed.1 ∧ ∀ dep ∈ done, dep ∈ evaluator.recipes.rules)
              · rintro before dep after - fed ⟨hfed, hdone⟩ next hnext
                obtain ⟨⟨memo', digests⟩, hvisited, hnext⟩ := bind_eq_ok hnext
                cases hnext
                obtain ⟨hmemo', hdep, -⟩ := ih dep (key :: path) hfed _ hvisited
                refine ⟨hmemo', fun other hother => ?_⟩
                rcases List.mem_append.mp hother with hbefore | hlast
                · exact hdone other hbefore
                · rw [List.mem_singleton.mp hlast]
                  exact hdep
              · exact ⟨hmemo₁, nofun⟩
            obtain ⟨hmemo₂, hall⟩ := hfed _ hdeps
            refine ⟨fun other digests hother => ?_, hmem, fun _ => by simp⟩
            rw [Std.ExtTreeMap.getElem?_insert] at hother
            split_ifs at hother with hsame
            · obtain rfl := Std.LawfulEqOrd.eq_of_compare hsame
              exact ⟨recipe, okOr_eq_ok hrecipe, hall⟩
            · exact hmemo₂ other digests hother

end Evaluator

/-! ## Whole evaluations -/

/-- What an evaluation of recipes against a tree starts from. -/
theorem prepareEvaluation_ok {recipes : PartialRecipes} {targets : StringMap String}
    {tree : TreeIndex} {evaluation : Evaluation D}
    (h : prepareEvaluation recipes targets tree = .ok evaluation) :
    evaluation.recipes = recipes ∧ evaluation.tree = tree ∧
      decodeDigest recipes.seedHash = .ok evaluation.seedHash ∧
      ∀ label ∈ sourceLabels targets, label ∈ evaluation.sourceDigests := by
  rw [prepareEvaluation] at h
  by_cases hversion : recipes.version ≠ recipeVersion
  · rw [if_pos hversion] at h
    cases h
  · rw [if_neg hversion] at h
    obtain ⟨seedHash, hseed, h⟩ := bind_eq_ok h
    cases h
    refine ⟨rfl, rfl, hseed, ?_⟩
    dsimp only
    have hfold : ∀ (labels : List String) (digests : StringMap D), ∀ label,
        (label ∈ labels ∨ label ∈ digests) → label ∈ labels.foldl (fun digests label =>
          digests.insert label (sourceDigest tree label (sourceSeed D label
            (recipes.subincludes label)))) digests := by
      intro labels
      induction labels with
      | nil =>
          rintro digests label (hmem | hmem)
          · exact absurd hmem List.not_mem_nil
          · exact hmem
      | cons first rest ih =>
          rintro digests label (hmem | hmem)
          · rcases List.mem_cons.mp hmem with rfl | hrest
            · exact ih _ label (Or.inr Std.ExtTreeMap.mem_insert_self)
            · exact ih _ label (Or.inl hrest)
          · exact ih _ label (Or.inr (Std.ExtTreeMap.mem_insert.mpr (Or.inr hmem)))
    exact fun label hlabel => hfold _ _ label (Or.inl hlabel)

/-- A target whose evaluation only looks up what the recipes have. -/
def Evaluable (recipes : PartialRecipes) (label kind : String) : Prop :=
  kind = "Rule" ∧ label ∈ recipes.rules ∨
    kind = "GeneratedFile" ∧
      (∃ generatingRule, recipes.generated[label]? = some generatingRule ∧
        generatingRule ∈ recipes.rules) ∨
    kind = "SourceFile"

/-- Complete recipes are evaluated against every target they cover. -/
theorem evaluate_succeeds {recipes : PartialRecipes} {targets : StringMap String}
    {tree : TreeIndex} (hversion : recipes.version = recipeVersion) {seedHash : D}
    (hseed : decodeDigest recipes.seedHash = .ok seedHash)
    (hcomplete : ∀ evaluation : Evaluation D, evaluation.recipes = recipes →
      evaluation.tree = tree → (∀ label ∈ sourceLabels targets, label ∈ evaluation.sourceDigests) →
        evaluation.toEvaluator.Complete)
    (htargets : ∀ label kind, targets[label]? = some kind → Evaluable recipes label kind) :
    ∃ hashes : StringMap (TargetHash D), evaluate recipes targets tree = .ok hashes := by
  have hprepare : ∃ evaluation : Evaluation D,
      prepareEvaluation recipes targets tree = .ok evaluation := by
    rw [prepareEvaluation, if_neg (not_not.mpr hversion), hseed]
    exact ⟨_, rfl⟩
  obtain ⟨evaluation, hevaluation⟩ := hprepare
  obtain ⟨hrecipes, htree, -, hsources⟩ := prepareEvaluation_ok hevaluation
  have hcomplete := hcomplete evaluation hrecipes htree hsources
  have hrule : ∀ key ∈ recipes.rules, ∀ memo, evaluation.toEvaluator.SoftCached memo →
      Succeeds (fun result => evaluation.toEvaluator.SoftCached result.1)
        (evaluation.toEvaluator.rule evaluation.toEvaluator.depth key [] memo) := by
    intro key hkey memo hmemo
    apply Evaluator.rule_succeeds hcomplete _ List.nodup_nil nofun _ (hrecipes ▸ hkey) hmemo
    rw [Evaluator.depth]
    simp
  have hloop : Succeeds (fun state : EvaluatorCache D × StringMap (TargetHash D) =>
      evaluation.toEvaluator.SoftCached state.1)
      (targets.toList.foldlM (evaluateTarget evaluation) ({}, ∅)) := by
    apply Meets.foldlM
    · rintro ⟨label, kind⟩ htarget ⟨memo, hashes⟩ hmemo
      have hkind : Succeeds (fun result => evaluation.toEvaluator.SoftCached result.1)
          (evaluateKind evaluation memo label kind) := by
        rw [evaluateKind]
        dsimp only
        rcases htargets label kind (Std.ExtTreeMap.mem_toList_iff_getElem?_eq_some.mp htarget) with
          ⟨rfl, hlabel⟩ | ⟨rfl, generatingRule, hgenerated, hlabel⟩ | rfl
        · exact hrule label hlabel memo hmemo
        · rw [if_neg (by decide), if_pos rfl, hrecipes, hgenerated]
          exact hrule generatingRule hlabel memo hmemo
        · rw [if_neg (by decide), if_neg (by decide), if_pos rfl]
          exact .ok hmemo
      apply Meets.bind hkind
      rintro ⟨memo', overall, direct⟩ hmemo'
      exact .ok hmemo'
    · intro label soft hsoft
      simp at hsoft
  obtain ⟨⟨memo, hashes⟩, hdone, -⟩ := Succeeds.exists_ok hloop
  refine ⟨hashes, ?_⟩
  rw [evaluate, hevaluation]
  change (targets.toList.foldlM (evaluateTarget evaluation) ({}, ∅) >>= _) = _
  rw [hdone]
  rfl

/-- The dependencies of every rule of a successful evaluation have recipes. -/
theorem deps_of_evaluate {recipes : PartialRecipes} {targets : StringMap String} {tree : TreeIndex}
    {hashes : StringMap (TargetHash D)} (h : evaluate recipes targets tree = .ok hashes)
    {label : String} (hlabel : targets[label]? = some "Rule") :
    ∃ recipe, recipes.rules[label]? = some recipe ∧ ∀ dep ∈ recipe.deps, dep ∈ recipes.rules := by
  rw [evaluate] at h
  obtain ⟨evaluation, hevaluation, h⟩ := bind_eq_ok h
  obtain ⟨⟨memo, result⟩, hloop, -⟩ := bind_eq_ok h
  obtain ⟨hrecipes, -, -, -⟩ := prepareEvaluation_ok hevaluation
  have hinv : Ensures (fun state : EvaluatorCache D × StringMap (TargetHash D) =>
      evaluation.toEvaluator.CachedClosed state.1 ∧ ((label, "Rule") ∈ targets.toList →
        ∃ recipe, recipes.rules[label]? = some recipe ∧ ∀ dep ∈ recipe.deps, dep ∈ recipes.rules))
      (targets.toList.foldlM (evaluateTarget evaluation) ({}, ∅)) := by
    apply Ensures.foldlM_done (Q := fun done (state : EvaluatorCache D × StringMap (TargetHash D)) =>
      evaluation.toEvaluator.CachedClosed state.1 ∧ ((label, "Rule") ∈ done →
        ∃ recipe, recipes.rules[label]? = some recipe ∧ ∀ dep ∈ recipe.deps, dep ∈ recipes.rules))
    · rintro before ⟨name, kind⟩ after - ⟨memo, hashes⟩ ⟨hmemo, hdone⟩ state hstate
      obtain ⟨⟨memo', overall, direct⟩, hdigests, hstate⟩ := bind_eq_ok hstate
      cases hstate
      have hrule := fun key => Evaluator.rule_closed evaluation.toEvaluator.depth key [] hmemo
      rw [evaluateKind] at hdigests
      dsimp only at hdigests hmemo
      split_ifs at hdigests with hkind hgenerated hsource
      · obtain ⟨hmemo', -, hcached⟩ := hrule name _ hdigests
        refine ⟨hmemo', fun hmem => ?_⟩
        rcases List.mem_append.mp hmem with hbefore | hlast
        · exact hdone hbefore
        · obtain ⟨rfl, -⟩ := Prod.mk.inj (List.mem_singleton.mp hlast)
          obtain ⟨digests, hdigests⟩ := Option.isSome_iff_exists.mp
            (Std.ExtTreeMap.mem_iff_isSome_getElem?.mp (hcached List.not_mem_nil))
          obtain ⟨recipe, hrecipe, hdeps⟩ := hmemo' label digests hdigests
          rw [hrecipes] at hrecipe hdeps
          exact ⟨recipe, hrecipe, hdeps⟩
      · obtain ⟨generatingRule, -, hdigests⟩ := bind_eq_ok hdigests
        refine ⟨(hrule generatingRule _ hdigests).1, fun hmem => ?_⟩
        rcases List.mem_append.mp hmem with hbefore | hlast
        · exact hdone hbefore
        · exact absurd (Prod.mk.inj (List.mem_singleton.mp hlast)).2.symm hkind
      · cases hdigests
        refine ⟨hmemo, fun hmem => ?_⟩
        rcases List.mem_append.mp hmem with hbefore | hlast
        · exact hdone hbefore
        · exact absurd (Prod.mk.inj (List.mem_singleton.mp hlast)).2.symm hkind
      · cases hdigests
    · exact ⟨fun key digests hcached => by simp at hcached, nofun⟩
  exact (hinv _ hloop).2 (Std.ExtTreeMap.mem_toList_iff_getElem?_eq_some.mpr hlabel)

end BazelDiff
