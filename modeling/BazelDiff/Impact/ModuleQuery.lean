/-
# When the query for module changes fails

Changed modules are looked into with one query. Where it cannot be asked every label counts
as impacted, and where it fails every workspace target does, so that a failure never reports
less than an answer would have.
-/

import BazelDiff.Impact.Endpoints

namespace BazelDiff

open Text

section Modules

variable (parseJson : String → Option Json)

/-- The version a graph gives a module key. -/
def recordedVersion (graph key : String) : Option String :=
  ((parseModules parseJson graph)[key]?).map (·.version)

/-- Two graphs, of which both or none name modules, that give a key different versions. -/
def VersionsDiffer (start final : String) : Prop :=
  (parseModules parseJson start).isEmpty = (parseModules parseJson final).isEmpty ∧
    ∃ key, recordedVersion parseJson start key ≠ recordedVersion parseJson final key

theorem changedModule_eq_none_iff {start final : StringMap Module} {key : String} :
    changedModule start final key = none ↔
      (start[key]?).map (·.version) = (final[key]?).map (·.version) := by
  rw [changedModule]
  cases start[key]? with
  | none => cases final[key]? <;> simp
  | some left =>
      cases final[key]? with
      | none => simp
      | some right => by_cases h : left.version = right.version <;> simp [h]

/-- Modules have changed when some key has. -/
theorem changedModules_ne_nil_iff (start final : String) :
    changedModules parseJson start final ≠ [] ↔ VersionsDiffer parseJson start final := by
  rw [changedModules, VersionsDiffer]
  by_cases hempty : (parseModules parseJson start).isEmpty = (parseModules parseJson final).isEmpty
  · rw [if_neg (not_not.mpr hempty), ne_eq, List.dedup_eq_nil, List.filterMap_eq_nil_iff]
    push Not
    constructor
    · rintro ⟨key, -, hchanged⟩
      exact ⟨hempty, key, fun h => hchanged (changedModule_eq_none_iff.mpr h)⟩
    · rintro ⟨-, key, hdiffer⟩
      refine ⟨key, ?_, fun h => hdiffer (changedModule_eq_none_iff.mp h)⟩
      by_contra hkey
      rw [List.mem_append, Std.ExtTreeMap.mem_keys, Std.ExtTreeMap.mem_keys, not_or] at hkey
      apply hdiffer
      rw [recordedVersion, recordedVersion, Std.ExtTreeMap.getElem?_eq_none hkey.1,
        Std.ExtTreeMap.getElem?_eq_none hkey.2]
  · rw [if_pos hempty]
    exact ⟨fun h => absurd rfl h, fun h => absurd h.1 hempty⟩

variable {D : Type} [DecidableEq D]

/-- Both revisions record a module graph, and the graphs differ in a version. -/
def ModulesChanged (start final : HashFileData D) : Prop :=
  ∃ startGraph finalGraph, start.moduleGraphJson = some startGraph ∧
    final.moduleGraphJson = some finalGraph ∧ VersionsDiffer parseJson startGraph finalGraph

/-- Without a query every label is impacted once modules have changed. -/
theorem impactedWithModuleQuery_noQuery (start final : HashFileData D)
    (query : String → Result (List Target)) :
    ∃ impacted, impactedWithModuleQuery parseJson start final false query = .ok impacted ∧
      (ModulesChanged parseJson start final → ∀ label, label ∈ impacted ↔ label ∈ final.hashes) ∧
      (¬ ModulesChanged parseJson start final →
        ∀ label, label ∈ impacted ↔ Moved start.hashes final.hashes label) := by
  obtain ⟨moved, hmoved, hmem⟩ := impactedTargets_unfiltered start.hashes final.hashes
  have hlabels : ∀ label, label ∈ moved.foldl (fun labels label => labels.insert label)
      (∅ : StringSet) ↔ Moved start.hashes final.hashes label := by
    intro label
    rw [mem_foldl_insert, hmem]
    simp
  have hkeys : ∀ label, label ∈ final.hashes.keys.foldl (fun labels label => labels.insert label)
      (∅ : StringSet) ↔ label ∈ final.hashes := by
    intro label
    rw [mem_foldl_insert, Std.ExtTreeMap.mem_keys]
    simp
  simp only [impactedWithModuleQuery, hmoved, bind, Except.bind, pure, Except.pure]
  cases hstart : start.moduleGraphJson with
  | none =>
      have hunchanged : ¬ ModulesChanged parseJson start final := by
        rintro ⟨startGraph, _, hsome, -⟩
        cases hstart.symm.trans hsome
      cases final.moduleGraphJson <;>
        exact ⟨_, rfl, fun h => absurd h hunchanged, fun _ => hlabels⟩
  | some startGraph =>
      cases hfinal : final.moduleGraphJson with
      | none =>
          have hunchanged : ¬ ModulesChanged parseJson start final := by
            rintro ⟨_, finalGraph, -, hsome, -⟩
            cases hfinal.symm.trans hsome
          exact ⟨_, rfl, fun h => absurd h hunchanged, fun _ => hlabels⟩
      | some finalGraph =>
          have hiff : ModulesChanged parseJson start final ↔
              VersionsDiffer parseJson startGraph finalGraph := by
            constructor
            · rintro ⟨_, _, hsome, hsome', hdiffer⟩
              cases hstart.symm.trans hsome
              cases hfinal.symm.trans hsome'
              exact hdiffer
            · exact fun hdiffer => ⟨_, _, hstart, hfinal, hdiffer⟩
          by_cases hsame : startGraph = finalGraph
          · have hunchanged : ¬ ModulesChanged parseJson start final := by
              rw [hiff, hsame]
              exact fun h => h.2.elim fun _ hne => hne rfl
            simp only [hsame, if_true]
            exact ⟨_, rfl, fun h => absurd h hunchanged, fun _ => hlabels⟩
          · simp only [Option.some.injEq, hsame, if_false, Bool.not_false, if_true]
            by_cases hchanged : changedModules parseJson startGraph finalGraph = []
            · have hunchanged : ¬ ModulesChanged parseJson start final := by
                rw [hiff, ← changedModules_ne_nil_iff]
                exact not_not.mpr hchanged
              simp only [hchanged, List.isEmpty_nil, if_true]
              exact ⟨_, rfl, fun h => absurd h hunchanged, fun _ => hlabels⟩
            · have hmodules : ModulesChanged parseJson start final :=
                hiff.mpr ((changedModules_ne_nil_iff parseJson _ _).mp hchanged)
              simp only [List.isEmpty_iff, hchanged, if_false]
              exact ⟨_, rfl, fun _ => hkeys, fun h => absurd hmodules h⟩

omit [DecidableEq D] in
/-- A label of the final revision that a query's answer adds is one that its failure adds. -/
theorem mem_conservativeLabels {hashes : StringMap (TargetHash D)} {targets : List Target}
    {label : String} (hlabel : label ∈ hashes) (hexternal : hasPrefix "//external:" label = false)
    (h : label ∈ answeredLabels targets) : label ∈ conservativeLabels hashes := by
  have hcanonical : hasPrefix "@@" label = false := by
    simpa using (List.mem_filter.mp h).2
  have hworkspace : label ∈ hashes.keys.filter fun label =>
      !hasPrefix "@@" label && !hasPrefix "//external:" label := by
    rw [List.mem_filter, Std.ExtTreeMap.mem_keys, hcanonical, hexternal]
    exact ⟨hlabel, rfl⟩
  rw [conservativeLabels]
  split
  · exact Std.ExtTreeMap.mem_keys.mpr hlabel
  · exact hworkspace

omit [DecidableEq D] in
theorem moduleLabels_of_failing {start final : HashFileData D}
    {query failing : String → Result (List Target)}
    (hfails : ∀ expression, ∃ failure, failing expression = .error failure) {label : String}
    (hlabel : label ∈ final.hashes) (hexternal : hasPrefix "//external:" label = false)
    (h : label ∈ moduleLabels parseJson start final query) :
    label ∈ moduleLabels parseJson start final failing := by
  rw [moduleLabels] at h ⊢
  cases hstart : start.moduleGraphJson with
  | none => simp [hstart] at h
  | some startGraph =>
      cases hfinal : final.moduleGraphJson with
      | none => simp [hstart, hfinal] at h
      | some finalGraph =>
          simp only [hstart, hfinal] at h ⊢
          split at h
          · exact absurd h List.not_mem_nil
          · next hasked =>
              rw [if_neg hasked]
              obtain ⟨failure, hfailure⟩ := hfails (rdepsExpression (changedRepos start.hashes
                final.hashes (changedModules parseJson startGraph finalGraph)))
              rw [hfailure]
              split at h
              · exact mem_conservativeLabels hlabel hexternal h
              · exact h

/-- **A failed query reports every label that changed, and every label outside `//external:` that
an answer would have reported; without a query, changed modules report every label.** -/
theorem module_query_conservative (start final : HashFileData D) (canQuery : Bool)
    (query : String → Result (List Target)) :
    ∃ impacted, impactedWithModuleQuery parseJson start final canQuery query = .ok impacted ∧
      (∀ label, Moved start.hashes final.hashes label → label ∈ impacted) ∧
      (∀ failing : String → Result (List Target),
        (∀ expression, ∃ failure, failing expression = .error failure) →
        ∃ fallback, impactedWithModuleQuery parseJson start final canQuery failing =
            .ok fallback ∧
          ∀ label, label ∈ final.hashes → hasPrefix "//external:" label = false →
            label ∈ impacted → label ∈ fallback) ∧
      (canQuery = false → ModulesChanged parseJson start final →
        ∀ label, label ∈ impacted ↔ label ∈ final.hashes) := by
  cases canQuery with
  | false =>
      obtain ⟨impacted, hrun, hchanged, hunchanged⟩ :=
        impactedWithModuleQuery_noQuery parseJson start final query
      refine ⟨impacted, hrun, fun label hmoved => ?_, fun failing _ => ?_, fun _ => hchanged⟩
      · by_cases h : ModulesChanged parseJson start final
        · obtain ⟨hash, hhash, -⟩ := hmoved
          exact (hchanged h label).mpr (Std.ExtTreeMap.mem_iff_isSome_getElem?.mpr (by simp [hhash]))
        · exact (hunchanged h label).mpr hmoved
      · exact ⟨impacted, hrun, fun _ _ _ h => h⟩
  | true =>
      obtain ⟨impacted, hrun, hmem⟩ := impactedWithModuleQuery_ok parseJson start final query
      refine ⟨impacted, hrun, fun label hmoved => (hmem label).mpr (Or.inl hmoved),
        fun failing hfails => ?_, fun h => absurd h (by decide)⟩
      obtain ⟨fallback, hfallback, hmem'⟩ := impactedWithModuleQuery_ok parseJson start final failing
      refine ⟨fallback, hfallback, fun label hlabel hexternal himpacted => (hmem' label).mpr ?_⟩
      apply ((hmem label).mp himpacted).imp_right
      exact moduleLabels_of_failing parseJson hfails hlabel hexternal

end Modules

/-- The printed graph of one module. -/
def oneModuleText (version : String) : String :=
  "\x7b\"key\": \"dep\", \"name\": \"dep\", \"version\": \"" ++ version ++
    "\", \"apparentName\": \"dep\"\x7d"

/-- A revision with one hash and the graph of one module. -/
def oneModule (label version : String) : HashFileData String where
  hashes := (∅ : StringMap (TargetHash String)).insert label ⟨"Rule", .text "a", .text "b"⟩
  moduleGraphJson := some (oneModuleText version)

/-- What the printed graphs of two versions read as. -/
def parseOneModule (text : String) : Option Json :=
  (["1", "2"].find? (oneModuleText · = text)).map fun version =>
    .object [("key", .string "dep"), ("name", .string "dep"), ("version", .string version),
      ("apparentName", .string "dep")]

/-- The module has moved, so the label is reported though its hash has not. -/
theorem module_query_conservative_oneModule :
    ∃ impacted, impactedWithModuleQuery parseOneModule (oneModule "//a:a" "1")
        (oneModule "//a:a" "2") false (fun _ => .ok []) = .ok impacted ∧
      "//a:a" ∈ impacted := by
  obtain ⟨impacted, hrun, -, -, hall⟩ := module_query_conservative parseOneModule
    (oneModule "//a:a" "1") (oneModule "//a:a" "2") false fun _ => .ok []
  have hchanged : ModulesChanged parseOneModule (oneModule "//a:a" "1") (oneModule "//a:a" "2") :=
    ⟨_, _, rfl, rfl, by decide +kernel, "dep", by decide +kernel⟩
  exact ⟨impacted, hrun, (hall rfl hchanged "//a:a").mpr (by decide +kernel)⟩

end BazelDiff
