/-
# The label endpoint and the distance endpoint

The same question has two answers. The label endpoint filters the labels whose hash
moved together with those a module change reaches. The distance endpoint drops the
latter from the starting hashes, so that they look new, and classifies what is left.
Only a label of the final revision can be classified, while the module query may answer
labels the final revision has no hash for.
-/

import BazelDiff.Impact.Distance
import BazelDiff.Impact.ModuleGraph
import BazelDiff.Lib.Outcome
import Mathlib.Data.List.Dedup

namespace BazelDiff

open Text Outcome

variable {D : Type} [DecidableEq D]

/-! ## Filtered labels -/

/-- Whether the filter for external targets lets a label through. -/
def reported (excludeExternal : Bool) (label : String) : Bool :=
  !excludeExternal || !hasPrefix "//external:" label

omit [DecidableEq D] in
/-- Without a filter every label is accepted; with one the label needs a final hash that has a
kind. -/
theorem accepts_fails_iff (label : String) (final : StringMap (TargetHash D))
    (targetTypes : Option StringSet) :
    (¬ ∃ accepted, accepts label final targetTypes = .ok accepted) ↔
      targetTypes.isSome = true ∧ ∀ hash, final[label]? = some hash → hash.kind = "" := by
  unfold accepts
  cases targetTypes with
  | none => simp
  | some types =>
      cases hhash : final[label]? with
      | none => simp [bail]
      | some hash =>
          dsimp only
          split_ifs with hkind
          · simp [bail, hkind]
          · simp [hkind]

/-- The step of both filters: the item, if its label is accepted. -/
def keepAccepted {α : Type} (final : StringMap (TargetHash D)) (targetTypes : Option StringSet)
    (label : String) (item : α) : Result (Option α) := do
  if ← accepts label final targetTypes then return some item else return none

omit [DecidableEq D] in
theorem keepAccepted_ok_iff {α : Type} (final : StringMap (TargetHash D))
    (targetTypes : Option StringSet) (label : String) (item : α) :
    (∃ found, keepAccepted final targetTypes label item = .ok found) ↔
      ∃ accepted, accepts label final targetTypes = .ok accepted := by
  rw [keepAccepted]
  rcases accepts label final targetTypes with failure | accepted
  · constructor
    · rintro ⟨_, h⟩
      cases h
    · rintro ⟨_, h⟩
      cases h
  · cases accepted
    · exact ⟨fun _ => ⟨false, rfl⟩, fun _ => ⟨none, rfl⟩⟩
    · exact ⟨fun _ => ⟨true, rfl⟩, fun _ => ⟨some item, rfl⟩⟩

omit [DecidableEq D] in
theorem keepAccepted_eq_some_iff {α : Type} (final : StringMap (TargetHash D))
    (targetTypes : Option StringSet) (label : String) (item kept : α) :
    keepAccepted final targetTypes label item = .ok (some kept) ↔
      accepts label final targetTypes = .ok true ∧ item = kept := by
  rw [keepAccepted]
  rcases accepts label final targetTypes with failure | accepted
  · constructor
    · intro h
      cases h
    · rintro ⟨h, -⟩
      cases h
  · cases accepted
    · constructor
      · intro h
        cases h
      · rintro ⟨h, -⟩
        cases h
    · constructor
      · intro h
        cases h
        exact ⟨rfl, rfl⟩
      · rintro ⟨-, rfl⟩
        rfl

/-- The target-type filter has an answer for every reported candidate. -/
def Judged (candidates : String → Prop) (final : StringMap (TargetHash D))
    (targetTypes : Option StringSet) (excludeExternal : Bool) : Prop :=
  ∀ label, candidates label → reported excludeExternal label = true →
    ∃ accepted, accepts label final targetTypes = .ok accepted

/-- What a filter of labels makes of a set of candidates: it fails if a reported candidate
cannot be judged, and otherwise keeps the accepted ones. -/
structure Filtered (candidates : String → Prop) (final : StringMap (TargetHash D))
    (targetTypes : Option StringSet) (excludeExternal : Bool) (answer : Result (List String)) :
    Prop where
  ok_iff : (∃ labels, answer = .ok labels) ↔
    Judged candidates final targetTypes excludeExternal
  mem_iff : ∀ labels, answer = .ok labels → ∀ label, label ∈ labels ↔
    candidates label ∧ reported excludeExternal label = true ∧
      accepts label final targetTypes = .ok true

omit [DecidableEq D] in
/-- A filtering loop over items with a label each, and what is named after it. -/
theorem filtered_of_loop {α β : Type} (items : List α) (labelOf : α → String) (build : α → β)
    {candidates : String → Prop}
    (hitems : ∀ label, candidates label ↔ ∃ item ∈ items, labelOf item = label)
    (final : StringMap (TargetHash D)) (targetTypes : Option StringSet) (excludeExternal : Bool)
    (nameOf : β → String) (hname : ∀ item, nameOf (build item) = labelOf item)
    {names : List β → List String}
    (hnames : ∀ kept label, label ∈ names kept ↔ ∃ item ∈ kept, nameOf item = label) :
    Filtered candidates final targetTypes excludeExternal (do
      let kept ← (items.filter fun item => reported excludeExternal (labelOf item)).filterMapM
        fun item => keepAccepted final targetTypes (labelOf item) (build item)
      return names kept) := by
  have hcandidate : ∀ label, (∃ item ∈ items.filter fun item =>
      reported excludeExternal (labelOf item), labelOf item = label) ↔
      candidates label ∧ reported excludeExternal label = true := by
    intro label
    rw [hitems]
    constructor
    · rintro ⟨item, hitem, rfl⟩
      obtain ⟨hmem, hreported⟩ := List.mem_filter.mp hitem
      exact ⟨⟨item, hmem, rfl⟩, hreported⟩
    · rintro ⟨⟨item, hmem, rfl⟩, hreported⟩
      exact ⟨item, List.mem_filter.mpr ⟨hmem, hreported⟩, rfl⟩
  constructor
  · constructor
    · rintro ⟨labels, hlabels⟩ label hlabel hreported
      obtain ⟨kept, hkept, -⟩ := bind_eq_ok hlabels
      obtain ⟨item, hitem, rfl⟩ := (hcandidate label).mpr ⟨hlabel, hreported⟩
      exact (keepAccepted_ok_iff _ _ _ _).mp ((mem_of_filterMapM hkept).1 item hitem)
    · intro hall
      have hsteps : ∀ item ∈ items.filter fun item => reported excludeExternal (labelOf item),
          ∃ found, keepAccepted final targetTypes (labelOf item) (build item) = .ok found := by
        intro item hitem
        obtain ⟨hlabel, hreported⟩ := (hcandidate (labelOf item)).mp ⟨item, hitem, rfl⟩
        exact (keepAccepted_ok_iff _ _ _ _).mpr (hall _ hlabel hreported)
      obtain ⟨kept, hkept⟩ := filterMapM_ok hsteps
      exact ⟨names kept, by rw [hkept]; rfl⟩
  · intro labels hlabels label
    obtain ⟨kept, hkept, hlabels⟩ := bind_eq_ok hlabels
    cases hlabels
    rw [hnames, ← and_assoc, ← hcandidate]
    constructor
    · rintro ⟨found, hfound, rfl⟩
      obtain ⟨item, hitem, hstep⟩ := ((mem_of_filterMapM hkept).2 found).mp hfound
      obtain ⟨haccepts, rfl⟩ := (keepAccepted_eq_some_iff _ _ _ _ _).mp hstep
      rw [hname]
      exact ⟨⟨item, hitem, rfl⟩, haccepts⟩
    · rintro ⟨⟨item, hitem, rfl⟩, haccepts⟩
      refine ⟨build item, ((mem_of_filterMapM hkept).2 _).mpr ⟨item, hitem, ?_⟩, hname item⟩
      exact (keepAccepted_eq_some_iff _ _ _ _ _).mpr ⟨haccepts, rfl⟩

omit [DecidableEq D] in
theorem acceptedLabels_filtered (labels : List String) (final : StringMap (TargetHash D))
    (targetTypes : Option StringSet) (excludeExternal : Bool) :
    Filtered (· ∈ labels) final targetTypes excludeExternal
      (acceptedLabels labels final targetTypes excludeExternal) := by
  have hnames : ∀ (kept : List String) label, label ∈ id kept ↔ ∃ item ∈ kept, id item = label := by
    simp
  have hloop := filtered_of_loop labels id id (fun label => by simp : ∀ label, label ∈ labels ↔ _)
    final targetTypes excludeExternal id (fun _ => rfl) hnames
  exact (bind_pure (acceptedLabels labels final targetTypes excludeExternal)) ▸ hloop

omit [DecidableEq D] in
theorem filterAndSortLabels_filtered (labels : List String) (start final : StringMap (TargetHash D))
    (targetTypes : Option StringSet) (excludeExternal : Bool) :
    Filtered (· ∈ labels) final targetTypes excludeExternal
      (filterAndSortLabels labels start final targetTypes excludeExternal) := by
  apply filtered_of_loop labels id id (by simp) final targetTypes excludeExternal id fun _ => rfl
  intro kept label
  simp only [List.mem_map, List.mem_dedup, List.mem_insertionSort, Prod.exists, Prod.mk.injEq, id]
  constructor
  · rintro ⟨rank, found, ⟨kept, hkept, -, rfl⟩, rfl⟩
    exact ⟨kept, hkept, rfl⟩
  · rintro ⟨found, hfound, rfl⟩
    exact ⟨_, found, ⟨found, hfound, rfl, rfl⟩, rfl⟩

theorem impactedTargetsWithDistances_filtered {order : StringMap ImpactType → List String}
    (horder : ∀ impactTypes, (order impactTypes).Perm impactTypes.keys)
    (start final : StringMap (TargetHash D)) (depEdges : StringMap (List String))
    (targetTypes : Option StringSet) (excludeExternal : Bool) :
    Filtered (· ∈ impactedTypes start final) final targetTypes excludeExternal (do
      let targets ← impactedTargetsWithDistances order start final depEdges targetTypes
        excludeExternal
      return targets.map (·.label)) := by
  have hitems : ∀ label, label ∈ impactedTypes start final ↔
      ∃ entry ∈ (distances depEdges (impactedTypes start final)
        (order (impactedTypes start final))).toList, entry.1 = label := by
    intro label
    rw [← mem_distances (horder _), ← Std.ExtTreeMap.mem_keys,
      ← Std.ExtTreeMap.map_fst_toList_eq_keys, List.mem_map]
  rw [impactedTargetsWithDistances, bind_assoc]
  apply filtered_of_loop _ Prod.fst (fun entry => ⟨entry.1, entry.2.1, entry.2.2⟩) hitems final
    targetTypes excludeExternal ImpactedTargetWithDistance.label fun _ => rfl
  intro kept label
  simp only [List.mem_map, List.mem_insertionSort]

omit [DecidableEq D] in
/-- Two filters agree when they fail together and judge the same candidates. -/
theorem Filtered.alike_iff {β : Type} {nameOf : β → String} {candidates candidates' : String → Prop}
    {final : StringMap (TargetHash D)} {targetTypes : Option StringSet} {excludeExternal : Bool}
    {answer : Result (List String)} {targets : Result (List β)}
    (h : Filtered candidates final targetTypes excludeExternal answer)
    (h' : Filtered candidates' final targetTypes excludeExternal (do
      let targets ← targets
      return targets.map nameOf)) :
    Alike (fun labels targets => ∀ label, label ∈ labels ↔ label ∈ targets.map nameOf) answer
      targets ↔
    (Judged candidates final targetTypes excludeExternal ↔
      Judged candidates' final targetTypes excludeExternal) ∧
    (Judged candidates final targetTypes excludeExternal → ∀ label,
      reported excludeExternal label = true → accepts label final targetTypes = .ok true →
        (candidates label ↔ candidates' label)) := by
  rw [← h.ok_iff, ← h'.ok_iff]
  cases answer with
  | error failure =>
      cases targets with
      | error failure' =>
          simp [Alike.error]
      | ok found =>
          constructor
          · intro halike
            cases halike
          · rintro ⟨htogether, -⟩
            obtain ⟨labels, hlabels⟩ := htogether.mpr ⟨found.map nameOf, rfl⟩
            cases hlabels
  | ok labels =>
      cases targets with
      | error failure =>
          constructor
          · intro halike
            cases halike
          · rintro ⟨htogether, -⟩
            obtain ⟨labels, hlabels⟩ := htogether.mp ⟨labels, rfl⟩
            cases hlabels
      | ok found =>
          have hmem := h.mem_iff labels rfl
          have hmem' := h'.mem_iff (found.map nameOf) rfl
          have htogether : (∃ names, (.ok labels : Result (List String)) = .ok names) ↔
              ∃ names, (do
                let targets ← (.ok found : Result (List β))
                return targets.map nameOf) = .ok names :=
            ⟨fun _ => ⟨_, rfl⟩, fun _ => ⟨_, rfl⟩⟩
          constructor
          · intro halike
            cases halike with
            | ok hsame =>
                refine ⟨htogether, fun _ label hreported haccepts => ?_⟩
                have hlabel := hsame label
                rw [hmem, hmem'] at hlabel
                simpa [hreported, haccepts] using hlabel
          · rintro ⟨-, hsame⟩
            apply Alike.ok
            intro label
            rw [hmem, hmem']
            apply and_congr_left
            rintro ⟨hreported, haccepts⟩
            exact hsame ⟨labels, rfl⟩ label hreported haccepts

/-! ## The labels of a module change -/

/-- A label of the final revision whose state is not the one the first revision records. -/
def Moved (start final : StringMap (TargetHash D)) (label : String) : Prop :=
  ∃ hash, final[label]? = some hash ∧ start[label]? ≠ some hash

theorem impactedTargets_unfiltered (start final : StringMap (TargetHash D)) :
    ∃ labels, impactedTargets start final none false = .ok labels ∧
      ∀ label, label ∈ labels ↔ Moved start final label := by
  let changed := (final.toList.filter fun entry =>
    !(start[entry.1]?).any fun previous => previous.sameAs entry.2).map (·.1)
  have hchanged : ∀ label, label ∈ changed ↔ Moved start final label := by
    intro label
    simp only [changed, List.mem_map, List.mem_filter, Prod.exists,
      Std.ExtTreeMap.mem_toList_iff_getElem?_eq_some, Moved]
    constructor
    · rintro ⟨label, hash, ⟨hhash, hmoved⟩, rfl⟩
      refine ⟨hash, hhash, ?_⟩
      intro hstart
      simp [hstart, (TargetHash.sameAs_iff hash hash).mpr rfl] at hmoved
    · rintro ⟨hash, hhash, hmoved⟩
      refine ⟨label, hash, ⟨hhash, ?_⟩, rfl⟩
      cases hstart : start[label]? with
      | none => rfl
      | some previous =>
          simp only [Option.any_some, Bool.not_eq_true', Bool.eq_false_iff, ne_eq,
            TargetHash.sameAs_iff]
          rintro rfl
          exact hmoved hstart
  have haccepted := acceptedLabels_filtered changed final none false
  obtain ⟨impacted, himpacted⟩ := haccepted.ok_iff.mpr fun _ _ _ => ⟨true, rfl⟩
  have hsorted := filterAndSortLabels_filtered impacted start final none false
  obtain ⟨labels, hlabels⟩ := hsorted.ok_iff.mpr fun _ _ _ => ⟨true, rfl⟩
  refine ⟨labels, ?_, ?_⟩
  · rw [impactedTargets]
    change (acceptedLabels changed final none false >>= _) = _
    rw [himpacted]
    exact hlabels
  · intro label
    rw [hsorted.mem_iff labels hlabels, haccepted.mem_iff impacted himpacted, hchanged]
    simp [reported, accepts]

section Modules

variable (parseJson : String → Option Json)

/-- The labels a module change adds: what the query answers, or a conservative set. -/
def moduleLabels (start final : HashFileData D) (query : String → Result (List Target)) :
    List String :=
  match start.moduleGraphJson, final.moduleGraphJson with
  | some startGraph, some finalGraph =>
      let changed := changedModules parseJson startGraph finalGraph
      let repos := changedRepos start.hashes final.hashes changed
      if startGraph = finalGraph ∨ changed.isEmpty ∨ repos.isEmpty then []
      else
        match query (rdepsExpression repos) with
        | .ok targets => answeredLabels targets
        | .error _ => conservativeLabels final.hashes
  | _, _ => []

theorem impactedWithModuleQuery_ok (start final : HashFileData D)
    (query : String → Result (List Target)) :
    ∃ impacted, impactedWithModuleQuery parseJson start final true query = .ok impacted ∧
      ∀ label, label ∈ impacted ↔
        Moved start.hashes final.hashes label ∨ label ∈ moduleLabels parseJson start final query := by
  obtain ⟨moved, hmoved, hmem⟩ := impactedTargets_unfiltered start.hashes final.hashes
  have hadded : ∀ labels : List String, ∀ label, label ∈ labels.foldl
      (fun labels label => labels.insert label)
      (moved.foldl (fun labels label => labels.insert label) (∅ : StringSet)) ↔
      Moved start.hashes final.hashes label ∨ label ∈ labels := by
    intro labels label
    rw [mem_foldl_insert, mem_foldl_insert, hmem]
    simp
  simp only [impactedWithModuleQuery, hmoved, moduleLabels, bind, Except.bind, pure,
    Except.pure]
  cases hstart : start.moduleGraphJson with
  | none =>
      cases final.moduleGraphJson with
      | none => exact ⟨_, rfl, hadded []⟩
      | some finalGraph => exact ⟨_, rfl, hadded []⟩
  | some startGraph =>
      cases final.moduleGraphJson with
      | none => exact ⟨_, rfl, hadded []⟩
      | some finalGraph =>
          by_cases hsame : startGraph = finalGraph
          · simp only [hsame, true_or, if_true]
            exact ⟨_, rfl, hadded []⟩
          simp only [Option.some.injEq, hsame, false_or, if_false, Bool.not_true, Bool.false_eq_true]
          cases hchanged : (changedModules parseJson startGraph finalGraph).isEmpty with
          | true => exact ⟨_, rfl, hadded []⟩
          | false =>
              simp only [Bool.false_eq_true, if_false, false_or]
              split_ifs
              · exact ⟨_, rfl, hadded []⟩
              · cases query (rdepsExpression (changedRepos start.hashes final.hashes
                  (changedModules parseJson startGraph finalGraph))) with
                | ok targets => exact ⟨_, rfl, hadded (answeredLabels targets)⟩
                | error failure => exact ⟨_, rfl, hadded (conservativeLabels final.hashes)⟩

/-- The label endpoint. -/
def impactedLabels (start final : HashFileData D) (targetTypes : Option StringSet)
    (excludeExternal : Bool) (query : String → Result (List Target)) : Result (List String) := do
  let impacted ← impactedWithModuleQuery parseJson start final true query
  filterAndSortLabels impacted.toList start.hashes final.hashes targetTypes excludeExternal

/-- The distance endpoint. -/
def impactedDistances (order : StringMap ImpactType → List String) (start final : HashFileData D)
    (depEdges : StringMap (List String)) (targetTypes : Option StringSet) (excludeExternal : Bool)
    (query : String → Result (List Target)) : Result (List ImpactedTargetWithDistance) := do
  let impacted ← impactedWithModuleQuery parseJson start final true query
  let hashImpacted ← impactedTargets start.hashes final.hashes none false
  let distanceStart := (impacted.toList.filter (· ∉ hashImpacted)).foldl
    (fun hashes label => hashes.erase label) start.hashes
  impactedTargetsWithDistances order distanceStart final.hashes depEdges targetTypes
    excludeExternal

end Modules

omit [DecidableEq D] in
/-- Dropping labels from a map leaves the others alone. -/
theorem getElem?_foldl_erase (labels : List String) (hashes : StringMap (TargetHash D))
    (label : String) :
    (labels.foldl (fun hashes label => hashes.erase label) hashes)[label]? =
      if label ∈ labels then none else hashes[label]? := by
  induction labels generalizing hashes with
  | nil => simp
  | cons first rest ih =>
      rw [List.foldl_cons, ih, Std.ExtTreeMap.getElem?_erase]
      by_cases hfirst : first = label
      · simp [hfirst]
      · have hlabel : label ≠ first := fun h => hfirst h.symm
        simp [hfirst, hlabel]

theorem mem_impactedTypes (start final : StringMap (TargetHash D)) (label : String) :
    label ∈ impactedTypes start final ↔ Moved start final label := by
  rw [Std.ExtTreeMap.mem_iff_isSome_getElem?, impactedTypes, Std.ExtTreeMap.getElem?_filterMap',
    Moved]
  cases hfinal : final[label]? with
  | none => simp
  | some hash =>
      rw [Option.bind_some, impactType]
      cases hstart : start[label]? with
      | none => simp
      | some previous =>
          dsimp only
          split_ifs with hsame hdirect
          · simp [(TargetHash.sameAs_iff _ _).mp hsame]
          · have hne : previous ≠ hash := fun heq => hsame ((TargetHash.sameAs_iff _ _).mpr heq)
            simp [hne]
          · have hne : previous ≠ hash := fun heq => hsame ((TargetHash.sameAs_iff _ _).mpr heq)
            simp [hne]

/-! ## Agreement -/

section Agreement

variable (parseJson : String → Option Json)

/-- A label either endpoint is asked about. -/
def Asked (start final : HashFileData D) (query : String → Result (List Target))
    (label : String) : Prop :=
  Moved start.hashes final.hashes label ∨ label ∈ moduleLabels parseJson start final query

theorem impactedLabels_filtered (start final : HashFileData D) (targetTypes : Option StringSet)
    (excludeExternal : Bool) (query : String → Result (List Target)) :
    Filtered (Asked parseJson start final query) final.hashes targetTypes excludeExternal
      (impactedLabels parseJson start final targetTypes excludeExternal query) := by
  obtain ⟨impacted, himpacted, hmem⟩ := impactedWithModuleQuery_ok parseJson start final query
  have hfiltered := filterAndSortLabels_filtered impacted.toList start.hashes final.hashes
    targetTypes excludeExternal
  have hasked : (· ∈ impacted.toList) = Asked parseJson start final query := by
    funext label
    rw [Std.ExtTreeSet.mem_toList, hmem]
    rfl
  rw [impactedLabels, himpacted]
  rwa [hasked] at hfiltered

/-- To the distance endpoint a label is known that is asked about and has a final hash. -/
theorem impactedDistances_filtered {order : StringMap ImpactType → List String}
    (horder : ∀ impactTypes, (order impactTypes).Perm impactTypes.keys)
    (start final : HashFileData D) (depEdges : StringMap (List String))
    (targetTypes : Option StringSet) (excludeExternal : Bool)
    (query : String → Result (List Target)) :
    Filtered (fun label => Asked parseJson start final query label ∧ label ∈ final.hashes)
      final.hashes targetTypes excludeExternal (do
        let targets ← impactedDistances parseJson order start final depEdges targetTypes
          excludeExternal query
        return targets.map (·.label)) := by
  obtain ⟨impacted, himpacted, hmem⟩ := impactedWithModuleQuery_ok parseJson start final query
  obtain ⟨moved, hmoved, hmem'⟩ := impactedTargets_unfiltered start.hashes final.hashes
  have hfiltered := impactedTargetsWithDistances_filtered horder
    ((impacted.toList.filter (· ∉ moved)).foldl (fun hashes label => hashes.erase label)
      start.hashes) final.hashes depEdges targetTypes excludeExternal
  have hcandidates : ∀ label, label ∈ impactedTypes
      ((impacted.toList.filter (· ∉ moved)).foldl (fun hashes label => hashes.erase label)
        start.hashes) final.hashes ↔
      Asked parseJson start final query label ∧ label ∈ final.hashes := by
    intro label
    have hdropped : label ∈ impacted.toList.filter (· ∉ moved) ↔
        label ∈ impacted ∧ ¬ Moved start.hashes final.hashes label := by
      rw [List.mem_filter, Std.ExtTreeSet.mem_toList, decide_eq_true_eq, hmem']
    rw [mem_impactedTypes, Moved, getElem?_foldl_erase, Asked, ← hmem]
    constructor
    · rintro ⟨hash, hhash, hne⟩
      refine ⟨?_, mem_of_getElem? hhash⟩
      split_ifs at hne with hlabel
      · exact (hdropped.mp hlabel).1
      · exact (hmem label).mpr (.inl ⟨hash, hhash, hne⟩)
    · rintro ⟨hlabel, hfinal⟩
      obtain ⟨hash, hhash⟩ := Option.isSome_iff_exists.mp
        (Std.ExtTreeMap.mem_iff_isSome_getElem?.mp hfinal)
      refine ⟨hash, hhash, ?_⟩
      split_ifs with hkept
      · exact Option.some_ne_none hash ∘ Eq.symm
      · intro hstart
        apply hkept
        apply hdropped.mpr
        refine ⟨hlabel, ?_⟩
        rintro ⟨hash', hhash', hne⟩
        exact hne (hhash'.symm.trans hhash ▸ hstart)
  rw [impactedDistances, himpacted, hmoved]
  simp only [hcandidates] at hfiltered
  exact hfiltered

/-- A label of the module query's answer that is reported although the final revision has no hash
for it. -/
def Stray (start final : HashFileData D) (query : String → Result (List Target))
    (excludeExternal : Bool) (label : String) : Prop :=
  label ∈ moduleLabels parseJson start final query ∧ label ∉ final.hashes ∧
    reported excludeExternal label = true

/-- The endpoints give the same labels, or fail together, exactly when no label is stray or the
target-type filter fails on a label both know. -/
theorem endpoints_agree_iff {order : StringMap ImpactType → List String}
    (horder : ∀ impactTypes, (order impactTypes).Perm impactTypes.keys)
    (start final : HashFileData D) (depEdges : StringMap (List String))
    (targetTypes : Option StringSet) (excludeExternal : Bool)
    (query : String → Result (List Target)) :
    Alike (fun labels targets => ∀ label, label ∈ labels ↔
        label ∈ targets.map ImpactedTargetWithDistance.label)
      (impactedLabels parseJson start final targetTypes excludeExternal query)
      (impactedDistances parseJson order start final depEdges targetTypes excludeExternal query) ↔
    (∀ label, ¬ Stray parseJson start final query excludeExternal label) ∨
    (targetTypes.isSome = true ∧ ∃ label hash, final.hashes[label]? = some hash ∧
      hash.kind = "" ∧ reported excludeExternal label = true ∧
      (start.hashes[label]? ≠ some hash ∨ label ∈ moduleLabels parseJson start final query)) := by
  have hlabels := impactedLabels_filtered parseJson start final targetTypes excludeExternal query
  have hdistances := impactedDistances_filtered parseJson horder start final depEdges targetTypes
    excludeExternal query
  have hstray : ∀ label, Asked parseJson start final query label → label ∉ final.hashes →
      reported excludeExternal label = true →
      Stray parseJson start final query excludeExternal label := by
    rintro label (⟨hash, hhash, -⟩ | hmodule) hfinal hreported
    · exact absurd (mem_of_getElem? hhash) hfinal
    · exact ⟨hmodule, hfinal, hreported⟩
  rw [hlabels.alike_iff hdistances]
  constructor
  · rintro ⟨htogether, hsame⟩
    by_contra hneither
    obtain ⟨hstrays, hfails⟩ := not_or.mp hneither
    obtain ⟨label, hlabel⟩ := not_forall.mp hstrays
    obtain ⟨hmodule, hfinal, hreported⟩ := not_not.mp hlabel
    cases targetTypes with
    | none =>
        have hboth := hsame (fun _ _ _ => ⟨true, rfl⟩) label hreported rfl
        exact hfinal (hboth.mp (.inr hmodule)).2
    | some types =>
        have hunjudged : ¬ Judged (Asked parseJson start final query) final.hashes (some types)
            excludeExternal := by
          intro hjudged
          apply (accepts_fails_iff label final.hashes (some types)).mpr _
            (hjudged label (.inr hmodule) hreported)
          exact ⟨rfl, fun hash hhash => absurd (mem_of_getElem? hhash) hfinal⟩
        apply hunjudged
        apply htogether.mpr
        intro known ⟨hasked, hknown⟩ hknownReported
        by_contra hfailed
        obtain ⟨hash, hhash⟩ := Option.isSome_iff_exists.mp
          (Std.ExtTreeMap.mem_iff_isSome_getElem?.mp hknown)
        refine hfails ⟨rfl, known, hash, hhash, ?_, hknownReported, ?_⟩
        · exact ((accepts_fails_iff known final.hashes (some types)).mp hfailed).2 hash hhash
        · rcases hasked with ⟨hash', hhash', hne⟩ | hmodule'
          · rw [hhash] at hhash'
            cases hhash'
            exact .inl hne
          · exact .inr hmodule'
  · rintro (hnone | ⟨hfilter, label, hash, hhash, hkind, hreported, hasked⟩)
    · have hknown : ∀ label, Asked parseJson start final query label →
          reported excludeExternal label = true → label ∈ final.hashes := by
        intro label hasked hreported
        by_contra hfinal
        exact hnone label (hstray label hasked hfinal hreported)
      refine ⟨⟨fun hjudged label hlabel => hjudged label hlabel.1,
        fun hjudged label hlabel hreported =>
          hjudged label ⟨hlabel, hknown label hlabel hreported⟩ hreported⟩, ?_⟩
      intro _ label hreported _
      exact ⟨fun hlabel => ⟨hlabel, hknown label hlabel hreported⟩, And.left⟩
    · have hfails : ¬ ∃ accepted, accepts label final.hashes targetTypes = .ok accepted := by
        apply (accepts_fails_iff label final.hashes targetTypes).mpr
        refine ⟨hfilter, fun hash' hhash' => ?_⟩
        rw [hhash] at hhash'
        cases hhash'
        exact hkind
      have hlabel : Asked parseJson start final query label :=
        hasked.imp (fun hne => ⟨hash, hhash, hne⟩) id
      have hfailed : ¬ Judged (Asked parseJson start final query) final.hashes targetTypes
          excludeExternal := fun hjudged => hfails (hjudged label hlabel hreported)
      refine ⟨⟨fun hjudged => absurd hjudged hfailed, fun hjudged => ?_⟩,
        fun hjudged => absurd hjudged hfailed⟩
      exact absurd (hjudged label ⟨hlabel, mem_of_getElem? hhash⟩ hreported) hfails

end Agreement

/-! ## A module upgrade -/

/-- The printed module graph of a workspace whose only module is `lib`. -/
def libraryGraph (version : String) : String :=
  "\x7b\"key\":\"lib@" ++ version ++ "\",\"name\":\"lib\",\"version\":\"" ++ version ++
    "\",\"apparentName\":\"lib\"\x7d"

/-- A reader of these graphs. -/
def readLibraryGraph (text : String) : Option Json :=
  (["1", "2"].find? fun version => text = libraryGraph version).map fun version =>
    .object [("key", .string ("lib@" ++ version)), ("name", .string "lib"),
      ("version", .string version), ("apparentName", .string "lib")]

/-- A revision that uses `lib` at a version: its own target and the module's are hashed. -/
def libraryRevision (version : String) : HashFileData Preimage :=
  let hash : TargetHash Preimage := ⟨"Rule", .text "hash", .text "direct"⟩
  { hashes := ((∅ : StringMap _).insert "//app:app" hash).insert "@@lib+2//:lib" hash
    moduleGraphJson := some (libraryGraph version) }

/-- A query that answers one rule. -/
def answering (label : String) : String → Result (List Target) :=
  fun _ => .ok [{ type := .rule, rule := some { name := label, ruleClass := "sh_library" } }]

theorem endpoints_agree_on_hashed_target :
    Alike (fun labels targets => ∀ label, label ∈ labels ↔
        label ∈ targets.map ImpactedTargetWithDistance.label)
      (impactedLabels readLibraryGraph (libraryRevision "1") (libraryRevision "2") none false
        (answering "//app:app"))
      (impactedDistances readLibraryGraph Std.ExtTreeMap.keys (libraryRevision "1")
        (libraryRevision "2") ∅ none false (answering "//app:app")) := by
  apply (endpoints_agree_iff readLibraryGraph (fun _ => List.Perm.refl _) (libraryRevision "1")
    (libraryRevision "2") ∅ none false (answering "//app:app")).mpr
  apply Or.inl
  rintro label ⟨hmodule, hfinal, -⟩
  have hlabels : moduleLabels readLibraryGraph (libraryRevision "1") (libraryRevision "2")
      (answering "//app:app") = ["//app:app"] := by
    decide +kernel
  rw [hlabels, List.mem_singleton] at hmodule
  apply hfinal
  rw [hmodule]
  decide +kernel

/-- A target the query answers and the hashes leave out is in one answer and not in the other. -/
theorem endpoints_disagree_on_unhashed_target :
    ¬ Alike (fun labels targets => ∀ label, label ∈ labels ↔
        label ∈ targets.map ImpactedTargetWithDistance.label)
      (impactedLabels readLibraryGraph (libraryRevision "1") (libraryRevision "2") none false
        (answering "//app:skipped"))
      (impactedDistances readLibraryGraph Std.ExtTreeMap.keys (libraryRevision "1")
        (libraryRevision "2") ∅ none false (answering "//app:skipped")) := by
  have hlabels : impactedLabels readLibraryGraph (libraryRevision "1") (libraryRevision "2") none
      false (answering "//app:skipped") = .ok ["//app:skipped"] := by
    decide +kernel
  have hdistances : impactedDistances readLibraryGraph Std.ExtTreeMap.keys (libraryRevision "1")
      (libraryRevision "2") ∅ none false (answering "//app:skipped") = .ok [] := by
    decide +kernel
  rw [hlabels, hdistances]
  intro halike
  cases halike with
  | ok hsame => exact absurd ((hsame "//app:skipped").mp List.mem_cons_self) List.not_mem_nil

end BazelDiff
