/-
# Subinclude lists, compressed and read back

The recorder groups the sources of a package by their subinclude list. Finishing stores one
list for the package and, for every other list, the sources it belongs to; an empty package
list is left out. Looking a source up inverts this whatever lists a package mixes, and nothing
depends on the order the sources came in.
-/

import BazelDiff.Partial.Recipe

namespace BazelDiff

open Text HashFunction

namespace RecipeRecorder

/-- Record one source after another. -/
def recordSources (recorder : RecipeRecorder) (calls : List (String × List String)) :
    RecipeRecorder :=
  calls.foldl (fun recorder call => recorder.recordSource call.1 call.2) recorder

/-- The sources filed under a list in a package. -/
def filed (recorder : RecipeRecorder) (package : String) (list : List String) : List String :=
  (((recorder.subincludes[package]?).getD ∅)[list]?).getD []

/-! ## What recording files -/

theorem mem_filed_recordSource {recorder : RecipeRecorder} {label source package : String}
    {subincludes list : List String} :
    source ∈ (recorder.recordSource label subincludes).filed package list ↔
      source ∈ recorder.filed package list ∨
        (source, list) = (label, subincludes) ∧ package = labelPackage source := by
  rw [filed, recordSource, filed]
  simp only [Std.ExtTreeMap.getElem?_alter, Std.LawfulEqOrd.compare_eq_iff_eq, Prod.mk.injEq]
  by_cases hpackage : labelPackage label = package
  · subst hpackage
    by_cases hlist : subincludes = list
    · subst hlist
      simp only [if_true, Option.getD_some, Std.ExtTreeMap.getElem?_alter_self, List.mem_append,
        List.mem_singleton, and_true]
      constructor
      · rintro (hmem | rfl)
        · exact Or.inl hmem
        · exact Or.inr ⟨rfl, rfl⟩
      · rintro (hmem | ⟨rfl, -⟩)
        · exact Or.inl hmem
        · exact Or.inr rfl
    · simp [hlist, Ne.symm hlist, Std.ExtTreeMap.getElem?_alter]
  · have hother : ¬ ((source = label ∧ list = subincludes) ∧ package = labelPackage source) := by
      rintro ⟨⟨rfl, -⟩, rfl⟩
      exact hpackage rfl
    simp [hpackage, hother]

/-- A source is filed under the lists it was recorded with, in its own package. -/
theorem mem_filed_recordSources {calls : List (String × List String)} {recorder : RecipeRecorder}
    {source package : String} {list : List String} :
    source ∈ (recorder.recordSources calls).filed package list ↔
      source ∈ recorder.filed package list ∨
        (source, list) ∈ calls ∧ package = labelPackage source := by
  induction calls generalizing recorder with
  | nil => simp [recordSources]
  | cons call calls ih =>
      show source ∈ ((recorder.recordSource call.1 call.2).recordSources calls).filed package list ↔ _
      rw [ih, mem_filed_recordSource, List.mem_cons]
      tauto

/-! ## What finishing stores -/

theorem getElem?_foldl_insertAll (labels : List String) (list : List String)
    (map : StringMap (List String)) (label : String) :
    (labels.foldl (fun map label => map.insert label list) map)[label]? =
      if label ∈ labels then some list else map[label]? := by
  induction labels generalizing map with
  | nil => simp
  | cons first rest ih =>
      rw [List.foldl_cons, ih, Std.ExtTreeMap.getElem?_insert]
      by_cases hrest : label ∈ rest
      · rw [if_pos hrest, if_pos (List.mem_cons_of_mem _ hrest)]
      · by_cases hfirst : first = label
        · rw [if_neg hrest, if_pos (compare_eq_iff_eq.mpr hfirst), if_pos (by simp [hfirst])]
        · rw [if_neg hrest, if_neg fun heq => hfirst (compare_eq_iff_eq.mp heq),
            if_neg (by simp [hrest, Ne.symm hfirst])]

/-- What the maps say about a label: its own list, and its package's. -/
def stored (recipes : PartialRecipes) (label : String) : Option (List String) × Option (List String) :=
  (recipes.sourceSubincludes[label]?, recipes.packageSubincludes[labelPackage label]?)

theorem stored_storeList (chosen : List String) (recipes : PartialRecipes)
    (entry : List String × List String) (label : String) :
    stored (storeList chosen recipes entry) label =
      if entry.1 ≠ chosen ∧ label ∈ entry.2 then (some entry.1, (stored recipes label).2)
      else stored recipes label := by
  rw [storeList]
  by_cases hchosen : entry.1 = chosen
  · rw [if_pos hchosen, if_neg fun h => h.1 hchosen]
  · rw [if_neg hchosen, stored, getElem?_foldl_insertAll]
    split_ifs with hmem h h
    · rfl
    · exact absurd ⟨hchosen, hmem⟩ h
    · exact absurd h.2 hmem
    · rfl

/-- Lists that do not have the label leave what is stored about it. -/
theorem stored_foldl_of_notMem {lists : List (List String × List String)} {label : String}
    (h : ∀ entry ∈ lists, label ∉ entry.2) (chosen : List String) (recipes : PartialRecipes) :
    stored (lists.foldl (storeList chosen) recipes) label = stored recipes label := by
  induction lists generalizing recipes with
  | nil => rfl
  | cons entry lists ih =>
      rw [List.foldl_cons, ih fun other hother => h other (List.mem_cons_of_mem _ hother),
        stored_storeList, if_neg fun hentry => h entry List.mem_cons_self hentry.2]

/-- A label of one list gets that list as its own, unless it is the chosen one. -/
theorem stored_foldl_of_mem {front back : List (List String × List String)}
    {entry : List String × List String} {label : String} (hmem : label ∈ entry.2)
    (hfront : ∀ other ∈ front, label ∉ other.2) (hback : ∀ other ∈ back, label ∉ other.2)
    (chosen : List String) (recipes : PartialRecipes) :
    stored ((front ++ entry :: back).foldl (storeList chosen) recipes) label =
      if entry.1 = chosen then stored recipes label
      else (some entry.1, (stored recipes label).2) := by
  rw [List.foldl_append, List.foldl_cons, stored_foldl_of_notMem hback, stored_storeList,
    stored_foldl_of_notMem hfront]
  split_ifs with h heq heq
  · exact absurd heq h.1
  · rfl
  · rfl
  · exact absurd ⟨heq, hmem⟩ h

/-- The package's own list goes to its place after the sources' lists. -/
theorem stored_finishPackage (recipes : PartialRecipes) (package : String)
    (lists : List (List String × List String)) (label : String) :
    stored (finishPackage recipes package lists) label =
      ((stored (lists.foldl (storeList (defaultList lists)) recipes) label).1,
        if labelPackage label = package ∧ defaultList lists ≠ [] then some (defaultList lists)
        else (stored (lists.foldl (storeList (defaultList lists)) recipes) label).2) := by
  rw [finishPackage]
  by_cases hempty : (defaultList lists).isEmpty = true
  · rw [if_pos hempty, if_neg fun h => h.2 (List.isEmpty_iff.mp hempty)]
  · rw [if_neg hempty, stored]
    have hne : defaultList lists ≠ [] := fun h => hempty (List.isEmpty_iff.mpr h)
    by_cases hpackage : labelPackage label = package
    · rw [if_pos ⟨hpackage, hne⟩, hpackage, Std.ExtTreeMap.getElem?_insert_self]
      rfl
    · rw [if_neg fun h => hpackage h.1, Std.ExtTreeMap.getElem?_insert,
        if_neg fun heq => hpackage (compare_eq_iff_eq.mp heq).symm]
      rfl

/-- Other packages leave what is stored about a label. -/
theorem stored_foldl_finishPackage
    {packages : List (String × Std.ExtTreeMap (List String) (List String) compare)} {label : String}
    (hpackage : ∀ entry ∈ packages, labelPackage label ≠ entry.1)
    (hlists : ∀ entry ∈ packages, ∀ lists ∈ entry.2.toList, label ∉ lists.2)
    (recipes : PartialRecipes) :
    stored (packages.foldl (fun recipes entry => finishPackage recipes entry.1 entry.2.toList)
      recipes) label = stored recipes label := by
  induction packages generalizing recipes with
  | nil => rfl
  | cons entry packages ih =>
      rw [List.foldl_cons, ih (fun other hother => hpackage other (List.mem_cons_of_mem _ hother))
        fun other hother => hlists other (List.mem_cons_of_mem _ hother), stored_finishPackage,
        if_neg fun h => hpackage entry List.mem_cons_self h.1,
        stored_foldl_of_notMem (hlists entry List.mem_cons_self)]

/-- A source is filed in one place, in its own package. -/
def FiledOnce (recorder : RecipeRecorder) : Prop :=
  ∀ source package list, source ∈ recorder.filed package list → package = labelPackage source ∧
    ∀ list', source ∈ recorder.filed package list' → list' = list

theorem mem_filed {recorder : RecipeRecorder} {package source : String}
    {lists : Std.ExtTreeMap (List String) (List String) compare} {list labels : List String}
    (hlists : recorder.subincludes[package]? = some lists) (hlabels : lists[list]? = some labels)
    (hsource : source ∈ labels) : source ∈ recorder.filed package list := by
  rw [filed, hlists, Option.getD_some, hlabels]
  exact hsource

theorem exists_of_mem_filed {recorder : RecipeRecorder} {package source : String}
    {list : List String} (h : source ∈ recorder.filed package list) :
    ∃ lists labels, recorder.subincludes[package]? = some lists ∧ lists[list]? = some labels ∧
      source ∈ labels := by
  rw [filed] at h
  cases hlists : recorder.subincludes[package]? with
  | none => simp [hlists] at h
  | some lists =>
      rw [hlists, Option.getD_some] at h
      cases hlabels : lists[list]? with
      | none => simp [hlabels] at h
      | some labels =>
          rw [hlabels] at h
          exact ⟨lists, labels, rfl, hlabels, h⟩

/-- What a package's lists leave stored about a source that is filed there once. -/
theorem stored_finishPackage_own {recorder : RecipeRecorder} (honce : recorder.FiledOnce)
    {source : String} {lists : Std.ExtTreeMap (List String) (List String) compare}
    {list labels : List String}
    (hlists : recorder.subincludes[labelPackage source]? = some lists)
    (hlabels : lists[list]? = some labels) (hsource : source ∈ labels) {recipes : PartialRecipes}
    (hstored : stored recipes source = (none, none)) :
    stored (finishPackage recipes (labelPackage source) lists.toList) source =
      (if list = defaultList lists.toList then none else some list,
        if defaultList lists.toList = [] then none else some (defaultList lists.toList)) := by
  obtain ⟨front, back, hlist, hfront, hback⟩ := exists_toList_split hlabels
  have hother : ∀ other ∈ lists.toList, other.1 ≠ list → source ∉ other.2 := by
    rintro ⟨list', labels'⟩ hmem hne hsource'
    have hlabels' := Std.ExtTreeMap.mem_toList_iff_getElem?_eq_some.mp hmem
    exact hne ((honce source _ list (mem_filed hlists hlabels hsource)).2 list'
      (mem_filed hlists hlabels' hsource'))
  have hloop := @stored_foldl_of_mem front back (list, labels) _ hsource
    (fun other hmem => hother other (by rw [hlist]; exact List.mem_append_left _ hmem)
      (hfront other hmem))
    (fun other hmem => hother other
      (by rw [hlist]; exact List.mem_append_right _ (List.mem_cons_of_mem _ hmem))
      (hback other hmem))
    (defaultList lists.toList) recipes
  rw [← hlist, hstored] at hloop
  rw [stored_finishPackage, hloop]
  by_cases hdefault : list = defaultList lists.toList
  · by_cases hempty : defaultList lists.toList = []
    · simp [hdefault, hempty]
    · simp [hdefault, hempty]
  · by_cases hempty : defaultList lists.toList = []
    · rw [hempty] at hdefault
      simp [hdefault, hempty]
    · simp [hdefault, hempty]

/-- Finishing keeps the list of every source that is filed once. -/
theorem subincludes_finish {recorder : RecipeRecorder} (honce : recorder.FiledOnce)
    {source : String} {list : List String}
    (hstored : stored recorder.recipes source = (none, none))
    (hfiled : source ∈ recorder.filed (labelPackage source) list) :
    recorder.finish.subincludes source = list := by
  obtain ⟨lists, labels, hlists, hlabels, hsource⟩ := exists_of_mem_filed hfiled
  obtain ⟨front, back, hpackages, hfront, hback⟩ := exists_toList_split hlists
  have hother : ∀ entry ∈ recorder.subincludes.toList, entry.1 ≠ labelPackage source →
      ∀ group ∈ entry.2.toList, source ∉ group.2 := by
    rintro ⟨package, lists'⟩ hentry hne ⟨list', labels'⟩ hgroup hmem
    exact hne (honce source package list' (mem_filed
      (Std.ExtTreeMap.mem_toList_iff_getElem?_eq_some.mp hentry)
      (Std.ExtTreeMap.mem_toList_iff_getElem?_eq_some.mp hgroup) hmem)).1
  have hbefore := stored_foldl_finishPackage (fun entry hentry => (hfront entry hentry).symm)
    (fun entry hentry => hother entry (by rw [hpackages]; exact List.mem_append_left _ hentry)
      (hfront entry hentry)) recorder.recipes
  have hafter := stored_foldl_finishPackage (fun entry hentry => (hback entry hentry).symm)
    (fun entry hentry => hother entry
      (by rw [hpackages]; exact List.mem_append_right _ (List.mem_cons_of_mem _ hentry))
      (hback entry hentry))
  have hfinish : stored recorder.finish source =
      (if list = defaultList lists.toList then none else some list,
        if defaultList lists.toList = [] then none else some (defaultList lists.toList)) := by
    rw [finish, hpackages, List.foldl_append, List.foldl_cons, hafter]
    exact stored_finishPackage_own honce hlists hlabels hsource (hbefore.trans hstored)
  obtain ⟨hown, hpackage⟩ := Prod.mk.inj hfinish
  rw [PartialRecipes.subincludes, hown, hpackage]
  by_cases hdefault : list = defaultList lists.toList
  · rw [if_pos hdefault, hdefault]
    split_ifs with hempty
    · exact hempty.symm
    · rfl
  · rw [if_neg hdefault]
    rfl

/-! ## From the first call to the last -/

variable {D : Type} [HashFunction D]

theorem filed_new (seedHash : D) (packageSeeds : Bool) (package : String) (list : List String) :
    (new seedHash packageSeeds).filed package list = [] := by
  simp [filed, new]

/-- Sources with different labels are each filed once. -/
theorem filedOnce_recordSources (seedHash : D) (packageSeeds : Bool)
    {calls : List (String × List String)} (hlabels : (calls.map (·.1)).Nodup) :
    ((new seedHash packageSeeds).recordSources calls).FiledOnce := by
  intro source package list hmem
  rw [mem_filed_recordSources, filed_new] at hmem
  obtain ⟨hcall, hpackage⟩ := hmem.resolve_left List.not_mem_nil
  refine ⟨hpackage, ?_⟩
  intro list' hmem'
  rw [mem_filed_recordSources, filed_new] at hmem'
  obtain ⟨hcall', -⟩ := hmem'.resolve_left List.not_mem_nil
  exact congrArg Prod.snd (List.inj_on_of_nodup_map hlabels hcall' hcall rfl)

theorem recipes_recordSources (calls : List (String × List String)) (recorder : RecipeRecorder) :
    (recorder.recordSources calls).recipes = recorder.recipes := by
  induction calls generalizing recorder with
  | nil => rfl
  | cons call calls ih => exact ih _

/-- Every recorded list is read back, and the order of the calls does not reach the recipes. -/
theorem recordSources_finish (seedHash : D) (packageSeeds : Bool)
    (calls : List (String × List String)) (hlabels : (calls.map (·.1)).Nodup) :
    (∀ call ∈ calls, ((new seedHash packageSeeds).recordSources calls).finish.subincludes call.1 =
        call.2) ∧
      ∀ calls', calls'.Perm calls →
        ((new seedHash packageSeeds).recordSources calls').finish =
          ((new seedHash packageSeeds).recordSources calls).finish := by
  constructor
  · rintro ⟨source, list⟩ hcall
    apply subincludes_finish (filedOnce_recordSources seedHash packageSeeds hlabels)
    · rw [recipes_recordSources]
      simp [stored, new]
    · rw [mem_filed_recordSources]
      exact Or.inr ⟨hcall, rfl⟩
  · intro calls' hperm
    apply finish_eq_of_same
    · rw [recipes_recordSources, recipes_recordSources]
    · exact sameSubincludes_foldl_of_perm hperm (new seedHash packageSeeds)

/-- A package of four sources with two lists, one of them empty, beside a package without. -/
theorem recordSources_finish_mixed :
    let calls := [("//a:x", ["//b:l"]), ("//a:w", []), ("//a:y", ["//b:l"]), ("//c:z", []),
      ("//a:v", ["//b:l"])]
    (calls.map (·.1)).Nodup ∧
      (∀ call ∈ calls,
        ((new (⟨[]⟩ : Preimage) true).recordSources calls).finish.subincludes call.1 = call.2) ∧
      ∀ calls', calls'.Perm calls →
        ((new (⟨[]⟩ : Preimage) true).recordSources calls').finish =
          ((new (⟨[]⟩ : Preimage) true).recordSources calls).finish := by
  have hlabels : (["//a:x", "//a:w", "//a:y", "//c:z", "//a:v"] : List String).Nodup := by decide
  exact ⟨hlabels, recordSources_finish _ true _ hlabels⟩

end RecipeRecorder

end BazelDiff
