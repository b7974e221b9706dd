/-
# Evaluation ends

Recipes come from a file, and nothing says that the dependencies in them exist or have no
cycle. A call of `Evaluator::rule` calls itself only for a recipe that is neither cached nor on
the path, with that key added to the path, so the recipes off the path get fewer. The order of
the calls is therefore well-founded, and the bound on the depth in the model is never what
stops an evaluation.
-/

import BazelDiff.Lib.FinishingOrder
import BazelDiff.Lib.Outcome
import BazelDiff.Partial.Evaluate

namespace BazelDiff

open Text HashFunction Outcome

variable {D : Type} [HashFunction D]

namespace Evaluator

variable (evaluator : Evaluator D)

/-! ## The calls a call makes -/

/-- A call, by its key and path, that another one makes: for a dependency of a recipe that is
not on the path yet, and now is. -/
inductive Nested : String × List String → String × List String → Prop
  | dep {key dep : String} {path : List String} {recipe : RuleRecipe}
      (hrecipe : evaluator.recipes.rules[key]? = some recipe) (hnew : key ∉ path)
      (hdep : dep ∈ recipe.deps) : Nested (dep, key :: path) (key, path)

/-- How many recipes are not on the path. -/
def offPath (path : List String) : Nat :=
  (evaluator.recipes.rules.keys.toFinset.filter (· ∉ path)).card

variable {evaluator}

omit [HashFunction D] in
theorem offPath_lt_depth (path : List String) : evaluator.offPath path < evaluator.depth := by
  have hle : evaluator.offPath path ≤ evaluator.recipes.rules.keys.length :=
    (Finset.card_filter_le _ _).trans (List.toFinset_card_le _)
  rw [Std.ExtTreeMap.length_keys] at hle
  exact Nat.lt_succ_of_le hle

omit [HashFunction D] in
/-- A nested call has fewer recipes off its path. -/
theorem offPath_nested {call caller : String × List String} (h : evaluator.Nested call caller) :
    evaluator.offPath call.2 < evaluator.offPath caller.2 := by
  obtain ⟨hrecipe, hnew, -⟩ := h
  have hkey := List.mem_toFinset.mpr (Std.ExtTreeMap.mem_keys.mpr (mem_of_getElem? hrecipe))
  apply FinishingOrder.card_outside_lt _ hkey hnew
  · exact fun hfresh => hfresh List.mem_cons_self
  · intro other hother hold
    exact hother (List.mem_cons_of_mem _ hold)

omit [HashFunction D] in
/-- No call goes on making nested calls forever. -/
theorem nested_wellFounded : WellFounded evaluator.Nested :=
  Subrelation.wf (fun h => offPath_nested h)
    (measure fun call : String × List String => evaluator.offPath call.2).wf

/-- What a call gives is settled by its nested calls. -/
theorem ruleStep_congr {visit visit' : Visit D} {key : String} {path : List String}
    (h : ∀ dep memo, evaluator.Nested (dep, key :: path) (key, path) →
      visit dep (key :: path) memo = visit' dep (key :: path) memo) (memo : EvaluatorCache D) :
    evaluator.ruleStep visit key path memo = evaluator.ruleStep visit' key path memo := by
  rw [ruleStep, ruleStep]
  cases memo.cache[key]? with
  | some digests => rfl
  | none =>
      cases hrecipe : evaluator.recipes.rules[key]? with
      | none => rfl
      | some recipe =>
          apply bind_congr_ok
          intro found hfound
          obtain rfl : recipe = found := Except.ok.inj hfound
          apply bind_congr_ok
          intro staticDigest _
          split_ifs with hpath
          · rfl
          · apply bind_congr_ok
            intro fed _
            have hdeps : recipe.deps.foldlM (feedDep visit (key :: path)) (fed.1, []) =
                recipe.deps.foldlM (feedDep visit' (key :: path)) (fed.1, []) := by
              apply foldlM_congr_done
              intro before dep after hitems state _
              have hdep : dep ∈ recipe.deps := by
                rw [hitems]
                exact List.mem_append_right _ List.mem_cons_self
              rw [feedDep, feedDep, h dep state.1 (.dep hrecipe hpath hdep)]
            dsimp only
            rw [hdeps]

/-! ## The bound on the depth -/

/-- Every bound above the recipes off the path gives the same. -/
theorem rule_settled {fuel fuel' : Nat} {key : String} {path : List String}
    (h : evaluator.offPath path < fuel) (h' : evaluator.offPath path < fuel')
    (memo : EvaluatorCache D) :
    evaluator.rule fuel key path memo = evaluator.rule fuel' key path memo := by
  induction fuel generalizing fuel' key path memo with
  | zero => exact absurd h (Nat.not_lt_zero _)
  | succ fuel ih =>
      cases fuel' with
      | zero => exact absurd h' (Nat.not_lt_zero _)
      | succ fuel' =>
          apply ruleStep_congr
          intro dep memo hnested
          have hfewer := offPath_nested hnested
          apply ih
          · exact Nat.lt_of_lt_of_le hfewer (Nat.le_of_lt_succ h)
          · exact Nat.lt_of_lt_of_le hfewer (Nat.le_of_lt_succ h')

/-- The recursion in the source, without a bound: a call is its body over the calls it makes. -/
theorem rule_unbounded (key : String) (path : List String) (memo : EvaluatorCache D) :
    evaluator.rule evaluator.depth key path memo =
      evaluator.ruleStep (evaluator.rule evaluator.depth) key path memo := by
  rw [rule_settled (offPath_lt_depth path) (Nat.lt_succ_of_lt (offPath_lt_depth path))]
  rfl

omit [HashFunction D] in
/-- A message is not the end of the recursion budget. -/
theorem meets_okOr {α : Type} (message : String) (a : Option α) :
    Meets (· ≠ Failure.outOfFuel) (fun _ => True) (okOr message a) := by
  cases a with
  | none => exact .error nofun
  | some a => exact .ok trivial

theorem meets_decodeDigest (value : String) :
    Meets (· ≠ Failure.outOfFuel) (fun _ => True) (decodeDigest value : Result D) := by
  rw [decodeDigest]
  cases Hex.decode value with
  | none => exact meets_okOr "recipe digest is not hex" none
  | some decoded => exact meets_okOr _ _

theorem meets_feedSource (key : String) (state : EvaluatorCache D × List UInt8) (label : String) :
    Meets (· ≠ Failure.outOfFuel) (fun _ => True) (evaluator.feedSource key state label) := by
  have hsource : Meets (· ≠ Failure.outOfFuel) (fun _ => True)
      (evaluator.source key state.1 label) := by
    rw [source]
    cases evaluator.sourceDigests[label]? with
    | some d => exact .ok trivial
    | none =>
        dsimp only
        cases (state.1.softDigests[label]?).getD (softDigest evaluator.tree label) with
        | some d => exact .ok trivial
        | none => exact .error nofun
  apply Meets.bind hsource
  intro fed _
  exact .ok trivial

/-- A call within the bound ends, with digests or with an error it reports. -/
theorem rule_ends {fuel : Nat} {key : String} {path : List String}
    (h : evaluator.offPath path < fuel) (memo : EvaluatorCache D) :
    Meets (· ≠ Failure.outOfFuel) (fun _ => True) (evaluator.rule fuel key path memo) := by
  induction fuel generalizing key path memo with
  | zero => exact absurd h (Nat.not_lt_zero _)
  | succ fuel ih =>
      rw [rule, ruleStep]
      cases memo.cache[key]? with
      | some digests => exact .ok trivial
      | none =>
          cases hrecipe : evaluator.recipes.rules[key]? with
          | none => exact .error nofun
          | some recipe =>
              have hfound : Meets (· ≠ Failure.outOfFuel) (· = recipe)
                  (okOr ("recipes hold no rule " ++ key) (some recipe)) := .ok rfl
              apply Meets.bind hfound
              rintro found rfl
              apply Meets.bind (meets_decodeDigest found.staticHex)
              intro staticDigest _
              split_ifs with hpath
              · exact .ok trivial
              · apply Meets.bind (Meets.foldlM (fun label _ fed _ => meets_feedSource key fed label)
                  trivial)
                intro fed _
                apply Meets.bind (P := fun _ => True)
                · apply Meets.foldlM
                  · intro dep hdep state _
                    have hfewer := offPath_nested (.dep hrecipe hpath hdep)
                    apply Meets.bind (ih (Nat.lt_of_lt_of_le hfewer (Nat.le_of_lt_succ h)) state.1)
                    intro digests _
                    exact .ok trivial
                  · trivial
                · intro overall _
                  exact .ok trivial

/-! ## What a call does about its key -/

/-- The cases of a call: a cached key, a key without a recipe, a key on the path, or one more
recipe to put on the path. Only the last makes nested calls. -/
inductive CallCase (evaluator : Evaluator D) (visit : Visit D) (key : String) (path : List String)
    (memo : EvaluatorCache D) : Prop
  | cached (digests : D × D) (hcached : memo.cache[key]? = some digests)
      (hresult : evaluator.ruleStep visit key path memo = .ok (memo, digests))
  | missing (hmissing : evaluator.recipes.rules[key]? = none)
      (hresult : evaluator.ruleStep visit key path memo = bail ("recipes hold no rule " ++ key))
  | onPath (hpath : key ∈ path)
      (hresult : ∀ visit', evaluator.ruleStep visit' key path memo =
        evaluator.ruleStep visit key path memo)
  | fresh (hrecipe : key ∈ evaluator.recipes.rules) (hnew : key ∉ path)

theorem callCase (visit : Visit D) (key : String) (path : List String) (memo : EvaluatorCache D) :
    CallCase evaluator visit key path memo := by
  cases hcached : memo.cache[key]? with
  | some digests =>
      apply CallCase.cached digests hcached
      rw [ruleStep, hcached]
      rfl
  | none =>
      cases hrecipe : evaluator.recipes.rules[key]? with
      | none =>
          apply CallCase.missing hrecipe
          rw [ruleStep, hcached, hrecipe]
          rfl
      | some recipe =>
          by_cases hpath : key ∈ path
          · apply CallCase.onPath hpath
            intro visit'
            apply ruleStep_congr
            intro dep memo' hnested
            cases hnested with
            | dep _ hnew _ => exact absurd hpath hnew
          · exact CallCase.fresh (mem_of_getElem? hrecipe) hpath

end Evaluator

/-! ## Whole evaluations -/

theorem prepareEvaluation_ends (recipes : PartialRecipes) (targets : StringMap String)
    (tree : TreeIndex) : Meets (· ≠ Failure.outOfFuel) (fun _ => True)
      (prepareEvaluation recipes targets tree : Result (Evaluation D)) := by
  rw [prepareEvaluation]
  split
  · exact .error nofun
  · apply Meets.bind (Evaluator.meets_decodeDigest recipes.seedHash)
    intro seedHash _
    exact .ok trivial

theorem evaluateKind_ends (evaluation : Evaluation D) (memo : EvaluatorCache D)
    (label kind : String) : Meets (· ≠ Failure.outOfFuel) (fun _ => True)
      (evaluateKind evaluation memo label kind) := by
  rw [evaluateKind]
  dsimp only
  split_ifs
  · exact Evaluator.rule_ends (Evaluator.offPath_lt_depth []) memo
  · apply Meets.bind (Evaluator.meets_okOr _ _)
    intro generatingRule _
    exact Evaluator.rule_ends (Evaluator.offPath_lt_depth []) memo
  · exact .ok trivial
  · exact .error nofun

/-- Any recipes can be evaluated to the end, against any targets and tree. The calls of
`Evaluator::rule` have a well-founded order, since each is for a cached key, for one without a
recipe, for one on the path, or puts one more recipe on the path; a call looks at no others, and
the bound on their depth is never what ends them. -/
theorem evaluation_terminates :
    (∀ (recipes : PartialRecipes) (targets : StringMap String) (tree : TreeIndex),
      (evaluate recipes targets tree : Result (StringMap (TargetHash D))) ≠ .error .outOfFuel) ∧
      ∀ evaluator : Evaluator D, WellFounded evaluator.Nested ∧
        (∀ visit key path memo, Evaluator.CallCase evaluator visit key path memo) ∧
        (∀ (visit visit' : Evaluator.Visit D) key path,
          (∀ dep memo, evaluator.Nested (dep, key :: path) (key, path) →
            visit dep (key :: path) memo = visit' dep (key :: path) memo) →
          ∀ memo, evaluator.ruleStep visit key path memo =
            evaluator.ruleStep visit' key path memo) ∧
        (∀ key path memo, evaluator.rule evaluator.depth key path memo =
          evaluator.ruleStep (evaluator.rule evaluator.depth) key path memo) ∧
        ∀ key path memo, evaluator.rule evaluator.depth key path memo ≠ .error .outOfFuel := by
  constructor
  · intro recipes targets tree
    apply Meets.ne_error_iff.mp
    rw [evaluate]
    apply Meets.bind (prepareEvaluation_ends recipes targets tree)
    intro evaluation _
    apply Meets.bind (P := fun _ => True)
    · apply Meets.foldlM
      · intro target _ state _
        apply Meets.bind (evaluateKind_ends evaluation state.1 target.1 target.2)
        intro digests _
        exact .ok trivial
      · trivial
    · intro state _
      exact .ok trivial
  · intro evaluator
    refine ⟨Evaluator.nested_wellFounded, Evaluator.callCase, ?_, Evaluator.rule_unbounded, ?_⟩
    · intro visit visit' key path h
      exact Evaluator.ruleStep_congr h
    · intro key path memo
      exact Meets.ne_error_iff.mp
        (Evaluator.rule_ends (Evaluator.offPath_lt_depth path) memo)

end BazelDiff
