/-
# Recipes

In partial-graph mode the traversal of a query result records, for each rule, the
digest of everything that goes into its hash except source content, and the source
labels and dependency keys it reads, in order. Everything a cache entry needs to be
hashed again against another tree is here.
-/

import BazelDiff.Lib.Pointwise
import BazelDiff.Lib.Sorting
import BazelDiff.Options
import BazelDiff.Target

namespace BazelDiff

open Text HashFunction

/-- `RECIPE_VERSION`. -/
def recipeVersion : Nat := 1

/-- One rule's hashing recipe, stored as `[static, sources, deps]`. -/
structure RuleRecipe where
  staticHex : String
  sources : List String
  deps : List String
  deriving DecidableEq

variable {D : Type} [HashFunction D]

/-- The text form of a digest. -/
def hexDigest (d : D) : String :=
  Hex.encode (bytes d)

def decodeDigest (value : String) : Result D :=
  match Hex.decode value with
  | none => bail "recipe digest is not hex"
  | some decoded => okOr "recipe digest is not 32 bytes" (ofBytes decoded)

theorem decodeDigest_hexDigest (d : D) : decodeDigest (hexDigest d) = (.ok d : Result D) := by
  simp [decodeDigest, hexDigest, ofBytes_bytes, okOr]

namespace RuleRecipe

def new (staticDigest : D) (sources deps : List String) : RuleRecipe :=
  ⟨hexDigest staticDigest, sources, deps⟩

def staticDigest (recipe : RuleRecipe) : Result D :=
  decodeDigest recipe.staticHex

end RuleRecipe

/-- Everything a cache entry needs to be re-hashed against another revision's tree. -/
structure PartialRecipes where
  version : Nat := 0
  /-- Hex digest of the seed files' contents. -/
  seedHash : String := ""
  /-- Whether packages seed their source files with the `.bzl` files they load. -/
  packageSeeds : Bool := false
  /-- The `.bzl` labels a package's source files load, where that list is not empty. -/
  packageSubincludes : StringMap (List String) := ∅
  /-- The lists of the source files whose list is not their package's. -/
  sourceSubincludes : StringMap (List String) := ∅
  rules : StringMap RuleRecipe := ∅
  /-- Generated file label to the key of the rule that generates it. -/
  generated : StringMap String := ∅
  /-- Workspace paths read while the graph loads. -/
  loadInputs : StringSet := ∅
  deriving DecidableEq

def PartialRecipes.subincludes (recipes : PartialRecipes) (label : String) : List String :=
  ((recipes.sourceSubincludes[label]?).or
    (recipes.packageSubincludes[labelPackage label]?)).getD []

/-- The recipes without their loading inputs. -/
def PartialRecipes.withoutLoading (recipes : PartialRecipes) : PartialRecipes :=
  { recipes with loadInputs := ∅ }

/-- What recipes that differ only in their loading inputs have in common. -/
theorem PartialRecipes.fields_eq {r₁ r₂ : PartialRecipes}
    (h : r₁.withoutLoading = r₂.withoutLoading) :
    r₁.version = r₂.version ∧ r₁.seedHash = r₂.seedHash ∧ r₁.packageSeeds = r₂.packageSeeds ∧
      r₁.subincludes = r₂.subincludes ∧ r₁.rules = r₂.rules ∧ r₁.generated = r₂.generated := by
  obtain ⟨_, _, _, _, _, _, _, _⟩ := r₁
  obtain ⟨_, _, _, _, _, _, _, _⟩ := r₂
  simp only [withoutLoading, mk.injEq] at h
  obtain ⟨rfl, rfl, rfl, rfl, rfl, rfl, rfl, -⟩ := h
  exact ⟨rfl, rfl, rfl, rfl, rfl, rfl⟩

/-- Recipes are determined by their loading inputs and the rest. -/
theorem PartialRecipes.eq_of_withoutLoading {r₁ r₂ : PartialRecipes}
    (h : r₁.withoutLoading = r₂.withoutLoading) (hload : r₁.loadInputs = r₂.loadInputs) :
    r₁ = r₂ := by
  obtain ⟨_, _, _, _, _, _, _, _⟩ := r₁
  obtain ⟨_, _, _, _, _, _, _, _⟩ := r₂
  simp only [withoutLoading, mk.injEq] at h hload ⊢
  exact ⟨h.1, h.2.1, h.2.2.1, h.2.2.2.1, h.2.2.2.2.1, h.2.2.2.2.2.1, h.2.2.2.2.2.2.1, hload⟩

/-- Collects recipes while the default traversal hashes a query result. -/
structure RecipeRecorder where
  recipes : PartialRecipes
  /-- Every source's subinclude list, grouped by package and then by list. -/
  subincludes : StringMap (Std.ExtTreeMap (List String) (List String) compare) := ∅

namespace RecipeRecorder

def new (seedHash : D) (packageSeeds : Bool) : RecipeRecorder where
  recipes :=
    { version := recipeVersion
      seedHash := hexDigest seedHash
      packageSeeds := packageSeeds }

def recordSource (recorder : RecipeRecorder) (label : String) (subincludes : List String) :
    RecipeRecorder :=
  { recorder with
    subincludes := recorder.subincludes.alter (labelPackage label) fun lists =>
      some ((lists.getD ∅).alter subincludes fun labels => some (labels.getD [] ++ [label])) }

def recordLoadingInputs (recorder : RecipeRecorder) (paths : List String) : RecipeRecorder :=
  { recorder with
    recipes := { recorder.recipes with
      loadInputs := paths.foldl (·.insert ·) recorder.recipes.loadInputs } }

def recordGenerated (recorder : RecipeRecorder) (label generatingRule : String) :
    RecipeRecorder :=
  { recorder with
    recipes := { recorder.recipes with
      generated := recorder.recipes.generated.insert label generatingRule } }

def recordRule (recorder : RecipeRecorder) (key : String) (recipe : RuleRecipe) :
    RecipeRecorder :=
  { recorder with
    recipes := { recorder.recipes with rules := recorder.recipes.rules.insert key recipe } }

/-- Whether the first label of `labels` comes before the first label of `others`. -/
def startsBefore (labels others : List String) : Bool :=
  match labels.min?, others.min? with
  | some label, some other => label < other
  | none, some _ => true
  | _, none => false

/-- The first entry, in list order, whose source labels have the smallest minimum. -/
def defaultList (lists : List (List String × List String)) : List String :=
  match lists with
  | [] => []
  | first :: rest =>
      (rest.foldl (fun best next => if startsBefore next.2 best.2 then next else best) first).1

/-- Store a list with the sources it belongs to, unless it is the package default. -/
def storeList (chosen : List String) (recipes : PartialRecipes)
    (entry : List String × List String) : PartialRecipes :=
  if entry.1 = chosen then recipes
  else
    { recipes with
      sourceSubincludes := entry.2.foldl (fun map label => map.insert label entry.1)
        recipes.sourceSubincludes }

/-- The package default is the list of its lexicographically first source; every other
list is stored with the sources it belongs to. -/
def finishPackage (recipes : PartialRecipes) (package : String)
    (lists : List (List String × List String)) : PartialRecipes :=
  let chosen := defaultList lists
  let recipes := lists.foldl (storeList chosen) recipes
  if chosen.isEmpty then recipes
  else { recipes with
    packageSubincludes := recipes.packageSubincludes.insert package chosen }

def finish (recorder : RecipeRecorder) : PartialRecipes :=
  recorder.subincludes.toList.foldl
    (fun recipes entry => finishPackage recipes entry.1 entry.2.toList) recorder.recipes

/-! ## Loading inputs are carried, never read -/

theorem mem_recordLoadingInputs (recorder : RecipeRecorder) (paths : List String)
    (path : String) :
    path ∈ (recorder.recordLoadingInputs paths).recipes.loadInputs ↔
      path ∈ recorder.recipes.loadInputs ∨ path ∈ paths := by
  exact mem_foldl_insert paths recorder.recipes.loadInputs path

theorem finishPackage_loading (recipes : PartialRecipes) (package : String)
    (lists : List (List String × List String)) :
    (finishPackage recipes package lists).withoutLoading =
        finishPackage recipes.withoutLoading package lists ∧
      (finishPackage recipes package lists).loadInputs = recipes.loadInputs := by
  have hloop : ∀ (rest : List (List String × List String)) (recipes : PartialRecipes),
      (rest.foldl (storeList (defaultList lists)) recipes).withoutLoading =
          rest.foldl (storeList (defaultList lists)) recipes.withoutLoading ∧
        (rest.foldl (storeList (defaultList lists)) recipes).loadInputs = recipes.loadInputs := by
    intro rest
    induction rest with
    | nil => exact fun recipes => ⟨rfl, rfl⟩
    | cons entry rest ih =>
        intro recipes
        have hstep : (storeList (defaultList lists) recipes entry).withoutLoading =
            storeList (defaultList lists) recipes.withoutLoading entry ∧
            (storeList (defaultList lists) recipes entry).loadInputs = recipes.loadInputs := by
          rw [storeList, storeList]
          split_ifs <;> exact ⟨rfl, rfl⟩
        obtain ⟨hrest, hload⟩ := ih (storeList (defaultList lists) recipes entry)
        rw [List.foldl_cons, hrest, hload, hstep.1, hstep.2]
        exact ⟨rfl, rfl⟩
  obtain ⟨hrest, hload⟩ := hloop lists recipes
  rw [finishPackage, finishPackage]
  split_ifs
  · exact ⟨hrest, hload⟩
  · refine ⟨?_, hload⟩
    rw [← hrest]
    rfl

theorem finish_loading (recorder : RecipeRecorder) :
    recorder.finish.withoutLoading =
        finish { recorder with recipes := recorder.recipes.withoutLoading } ∧
      recorder.finish.loadInputs = recorder.recipes.loadInputs := by
  rw [finish, finish]
  generalize recorder.subincludes.toList = packages
  generalize recorder.recipes = recipes
  induction packages generalizing recipes with
  | nil => exact ⟨rfl, rfl⟩
  | cons entry rest ih =>
      obtain ⟨hrest, hload⟩ := finishPackage_loading recipes entry.1 entry.2.toList
      obtain ⟨hrest', hload'⟩ := ih (finishPackage recipes entry.1 entry.2.toList)
      exact ⟨by rw [List.foldl_cons, hrest', hrest, List.foldl_cons],
        by rw [List.foldl_cons, hload', hload]⟩

/-- Two recipe sets that differ in their subincludes only. -/
def SameBeyondSubincludes (recipes recipes' : PartialRecipes) : Prop :=
  recipes.version = recipes'.version ∧ recipes.seedHash = recipes'.seedHash ∧
    recipes.rules = recipes'.rules ∧ recipes.generated = recipes'.generated

theorem SameBeyondSubincludes.trans {r₁ r₂ r₃ : PartialRecipes} (h : SameBeyondSubincludes r₁ r₂)
    (h' : SameBeyondSubincludes r₂ r₃) : SameBeyondSubincludes r₁ r₃ :=
  ⟨h.1.trans h'.1, h.2.1.trans h'.2.1, h.2.2.1.trans h'.2.2.1, h.2.2.2.trans h'.2.2.2⟩

theorem finishPackage_rest (recipes : PartialRecipes) (package : String)
    (lists : List (List String × List String)) :
    SameBeyondSubincludes (finishPackage recipes package lists) recipes := by
  have hloop : ∀ (rest : List (List String × List String)) (recipes : PartialRecipes),
      SameBeyondSubincludes (rest.foldl (storeList (defaultList lists)) recipes) recipes := by
    intro rest
    induction rest with
    | nil => exact fun recipes => ⟨rfl, rfl, rfl, rfl⟩
    | cons entry rest ih =>
        intro recipes
        rw [List.foldl_cons]
        apply (ih (storeList (defaultList lists) recipes entry)).trans
        rw [storeList]
        split_ifs
        · exact ⟨rfl, rfl, rfl, rfl⟩
        · exact ⟨rfl, rfl, rfl, rfl⟩
  rw [finishPackage]
  split_ifs
  · exact hloop lists recipes
  · exact hloop lists recipes

/-- Finishing stores subincludes and leaves the recipes alone. -/
theorem finish_rest (recorder : RecipeRecorder) :
    SameBeyondSubincludes recorder.finish recorder.recipes := by
  rw [finish]
  generalize recorder.subincludes.toList = packages
  generalize recorder.recipes = recipes
  induction packages generalizing recipes with
  | nil => exact ⟨rfl, rfl, rfl, rfl⟩
  | cons entry rest ih =>
      rw [List.foldl_cons]
      exact (ih _).trans (finishPackage_rest recipes entry.1 entry.2.toList)

theorem finish_rules (recorder : RecipeRecorder) :
    recorder.finish.rules = recorder.recipes.rules :=
  recorder.finish_rest.2.2.1

/-! ## The order sources were recorded in -/

/-- The same source labels package by package and list by list, each in some order. -/
def SameSubincludes (m m' : StringMap (Std.ExtTreeMap (List String) (List String) compare)) :
    Prop :=
  Pointwise (Pointwise List.Perm) m m'

theorem SameSubincludes.refl (m : StringMap (Std.ExtTreeMap (List String) (List String) compare)) :
    SameSubincludes m m :=
  Pointwise.refl (fun lists => Pointwise.refl (fun _ => List.Perm.refl _) lists) m

theorem SameSubincludes.trans {m m' m'' : StringMap (Std.ExtTreeMap (List String) (List String)
    compare)} (h : SameSubincludes m m') (h' : SameSubincludes m' m'') : SameSubincludes m m'' :=
  Pointwise.trans (R := Pointwise List.Perm)
    (fun _ _ _ => Pointwise.trans (R := List.Perm) fun _ _ _ => List.Perm.trans) h h'

theorem sameSubincludes_recordSource {r₁ r₂ : RecipeRecorder}
    (h : SameSubincludes r₁.subincludes r₂.subincludes) (label : String) (list : List String) :
    SameSubincludes (r₁.recordSource label list).subincludes
      (r₂.recordSource label list).subincludes := by
  refine Pointwise.alter h _ fun lists lists' hlists => .some ?_
  refine Pointwise.alter ?_ _ fun labels labels' hlabels => .some ?_
  · cases hlists with
    | none => exact Pointwise.empty
    | some hlists => exact hlists
  · cases hlabels with
    | none => exact List.Perm.refl _
    | some hlabels => exact hlabels.append_right [label]

/-- Two sources can be recorded in either order. -/
theorem sameSubincludes_recordSource_swap (recorder : RecipeRecorder) (label label' : String)
    (list list' : List String) :
    SameSubincludes ((recorder.recordSource label list).recordSource label' list').subincludes
      ((recorder.recordSource label' list').recordSource label list).subincludes := by
  refine Pointwise.alter_comm (fun lists => Pointwise.refl (fun _ => List.Perm.refl _) lists)
    (fun lists => .some ?_) _ _ _
  refine Pointwise.alter_comm (fun _ => List.Perm.refl _) (fun labels => .some ?_) _ _ _
  rw [Option.getD_some, Option.getD_some, List.append_assoc, List.append_assoc]
  exact (List.Perm.swap label' label []).append_left _

/-- Sources are recorded alike whatever order they come in. -/
theorem sameSubincludes_foldl_of_perm {α : Type} {name : α → String} {list : α → List String}
    {sources sources' : List α} (hperm : sources.Perm sources') (recorder : RecipeRecorder) :
    SameSubincludes
      (sources.foldl (fun recorder source =>
        recorder.recordSource (name source) (list source)) recorder).subincludes
      (sources'.foldl (fun recorder source =>
        recorder.recordSource (name source) (list source)) recorder).subincludes :=
  Sorting.foldl_related_of_perm
    (R := fun r₁ r₂ : RecipeRecorder => SameSubincludes r₁.subincludes r₂.subincludes)
    (fun _ => SameSubincludes.refl _) (fun _ _ _ => SameSubincludes.trans)
    (fun _ _ source h => sameSubincludes_recordSource h (name source) (list source))
    (fun recorder _ _ => sameSubincludes_recordSource_swap recorder _ _ _ _) hperm recorder

theorem recipes_foldl_recordSource (sources : List SourceFile) (recorder : RecipeRecorder) :
    (sources.foldl (fun recorder source =>
      recorder.recordSource source.name source.subinclude) recorder).recipes = recorder.recipes := by
  induction sources generalizing recorder with
  | nil => rfl
  | cons source rest ih => exact ih _

/-- One entry of a package, with its source labels in some order. -/
def SameList (a b : List String × List String) : Prop :=
  a.1 = b.1 ∧ a.2.Perm b.2

theorem min?_eq_of_perm {labels labels' : List String} (h : labels.Perm labels') :
    labels.min? = labels'.min? := by
  refine Option.ext fun label => ?_
  rw [List.min?_eq_some_iff, List.min?_eq_some_iff]
  simp only [h.mem_iff]

theorem defaultList_eq_of_same {lists lists' : List (List String × List String)}
    (h : List.Forall₂ SameList lists lists') : defaultList lists = defaultList lists' := by
  cases h with
  | nil => rfl
  | @cons first first' rest rest' hfirst hrest =>
      have hfold : SameList
          (rest.foldl (fun best next => if startsBefore next.2 best.2 then next else best) first)
          (rest'.foldl (fun best next => if startsBefore next.2 best.2 then next else best)
            first') := by
        refine List.rel_foldl (R := SameList) (fun best best' hbest next next' hnext => ?_)
          hfirst hrest
        have hbefore : startsBefore next.2 best.2 = startsBefore next'.2 best'.2 := by
          rw [startsBefore, startsBefore, min?_eq_of_perm hnext.2, min?_eq_of_perm hbest.2]
        rw [hbefore]
        split_ifs
        · exact hnext
        · exact hbest
      exact hfold.1

theorem finishPackage_eq_of_same (recipes : PartialRecipes) (package : String)
    {lists lists' : List (List String × List String)} (h : List.Forall₂ SameList lists lists') :
    finishPackage recipes package lists = finishPackage recipes package lists' := by
  have hinsert : ∀ (map : StringMap (List String)) (list : List String)
      {labels labels' : List String}, labels.Perm labels' →
      labels.foldl (fun map label => map.insert label list) map =
        labels'.foldl (fun map label => map.insert label list) map := by
    intro map list labels labels' hperm
    refine hperm.foldl_eq' (fun x _ y _ z => Std.ExtTreeMap.ext_getElem? fun k => ?_) map
    simp only [Std.ExtTreeMap.getElem?_insert]
    split_ifs <;> rfl
  have hloop : lists.foldl (storeList (defaultList lists')) recipes =
      lists'.foldl (storeList (defaultList lists')) recipes := by
    refine List.rel_foldl (P := Eq) (fun recipes recipes' heq entry entry' hentry => ?_) rfl h
    obtain rfl : recipes = recipes' := heq
    rw [storeList, storeList, hentry.1, hinsert _ _ hentry.2]
  rw [finishPackage, finishPackage, defaultList_eq_of_same h, hloop]

/-- The order sources were recorded in does not reach the recipes. -/
theorem finish_eq_of_same {r₁ r₂ : RecipeRecorder} (hrecipes : r₁.recipes = r₂.recipes)
    (h : SameSubincludes r₁.subincludes r₂.subincludes) : r₁.finish = r₂.finish := by
  rw [finish, finish, hrecipes]
  refine List.rel_foldl (P := Eq) (fun recipes recipes' heq entry entry' hentry => ?_) rfl h.toList
  obtain rfl : recipes = recipes' := heq
  rw [hentry.1]
  exact finishPackage_eq_of_same _ _ hentry.2.toList

end RecipeRecorder

end BazelDiff
