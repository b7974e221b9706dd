/-
# References to repositories Bazel could not map

A query lists the inputs of targets without loading them, so an input in a repository whose
mapping failed goes unnoticed. After an extension failure the repositories that targets name are
looked up, by canonical name or by a name the root knows them by, and those Bazel cannot map are
found by bisection. The targets that name one of them are reported: the first five, and how many
more there are.
-/

import BazelDiff.Query.Unavailable
import BazelDiff.Target

namespace BazelDiff

open Text

/-! ## The check -/

/-- The labels a target names: itself, and the inputs of its rule. -/
def namedLabels (target : Target) : List String :=
  (targetName target).getD "" ::
    target.rule.elim [] fun rule =>
      rule.ruleInput ++ rule.configuredRuleInput.filterMap (·.label)

/-- The repository behind every name the root knows; of two with one name the later. -/
def apparentToCanonical (canonicalToApparent : StringMap (List String)) : StringMap String :=
  canonicalToApparent.toList.foldl
    (fun names entry =>
      entry.2.foldl (fun names apparent => names.insert apparent entry.1) names) ∅

/-- The repository a label is in, unless it is the main one or unknown. -/
def labelCanonical (apparentToCanonical : StringMap String) (label : String) : Option String := do
  let (repo, _) ← splitOnce "//" label
  match stripPrefix "@@" repo with
  | some canonical => canonical
  | none => apparentToCanonical[← stripPrefix "@" repo]?

/-- The repositories that targets name. -/
def referencedRepositories (apparentToCanonical : StringMap String) (targets : List Target) :
    StringSet :=
  ((targets.flatMap namedLabels).filterMap (labelCanonical apparentToCanonical)).foldl
    (·.insert ·) ∅

/-- The names the root knows unavailable repositories by. -/
def unavailableApparent (apparentToCanonical : StringMap String) (failed : FailedExtensions) :
    StringSet :=
  ((apparentToCanonical.toList.filter fun entry =>
    hasUnavailableMapping entry.2 failed).map (·.1)).foldl (·.insert ·) ∅

/-- Whether a label is in an unavailable repository. -/
def isUnavailableLabel (unavailableApparent : StringSet) (failed : FailedExtensions)
    (label : String) : Bool :=
  match splitOnce "//" label with
  | none => false
  | some (repo, _) =>
      match stripPrefix "@@" repo with
      | some canonical => hasUnavailableMapping canonical failed
      | none => (stripPrefix "@" repo).any unavailableApparent.contains

/-- What is reported of a target that names one of some labels. -/
def offense (unavailable : String → Bool) (target : Target) : Option String :=
  ((namedLabels target).find? unavailable).map fun label =>
    (targetName target).getD "" ++ " depends on " ++ label ++ ", whose repository mapping failed"

def offendersSummary (offenders : List String) : String :=
  let shown := join "; " (offenders.take 5)
  let more := offenders.length - 5
  if 0 < more then shown ++ "; and " ++ toString more ++ " more" else shown

/-- The end of the check: an error, or a warning under `--keep_going`. -/
def offendersVerdict (keepGoing : Bool) (extensions : StringSet) (offenders : List String) :
    Result (Option String) :=
  if offenders = [] then .ok none
  else if keepGoing then
    .ok (some ("hashes do not cover inputs with failed repository mappings: " ++
      offendersSummary offenders))
  else
    bail ("repository mappings needed by targets failed: " ++ offendersSummary offenders ++
      "; reported module extensions: " ++ join ", " extensions.toList)

-- `bazel mod dump_repo_mapping` over some names.
variable (mapping : List String → Result ModOutput)

/-- The check of the targets of a query, with the warning it prints. -/
def checkFailedExtensionReferences (budget : Nat) (keepGoing : Bool) (targets : List Target)
    (failed : FailedExtensions) (canonicalToApparent : StringMap (List String)) :
    Result (Option String) × FailedExtensions :=
  if failed.isEmpty then (.ok none, failed)
  else
    let names := apparentToCanonical canonicalToApparent
    let referenced := (referencedRepositories names targets).toList
    match findUnavailableRepositories mapping budget referenced failed with
    | (.error failure, found) => (.error failure, found)
    | (.ok (), found) =>
        let apparent := unavailableApparent names found
        (offendersVerdict keepGoing found.extensions
          (targets.filterMap (offense (isUnavailableLabel apparent found))), found)

/-! ## What is reported -/

/-- The targets named at fault, told by a set of unavailable repositories: each with its first
label in one of them. -/
def offendersIn (bad : String → Bool) (apparentToCanonical : StringMap String)
    (targets : List Target) : List String :=
  targets.filterMap (offense fun label => (labelCanonical apparentToCanonical label).any bad)

/-- A repository that was recorded before, or is found when it is looked for. -/
def isUnmapped (unavailable : String → Bool) (failed : FailedExtensions) (canonical : String) :
    Bool :=
  hasUnavailableMapping canonical failed || isFound unavailable canonical

theorem mem_unavailableApparent {names : StringMap String} {failed : FailedExtensions}
    {apparent : String} :
    apparent ∈ unavailableApparent names failed ↔
      ∃ canonical, names[apparent]? = some canonical ∧
        hasUnavailableMapping canonical failed = true := by
  rw [unavailableApparent, mem_foldl_insert, List.mem_map]
  constructor
  · rintro (hmem | ⟨⟨name, canonical⟩, hmem, rfl⟩)
    · exact absurd hmem Std.ExtTreeSet.not_mem_empty
    · obtain ⟨hentry, hbad⟩ := List.mem_filter.mp hmem
      exact ⟨canonical, Std.ExtTreeMap.mem_toList_iff_getElem?_eq_some.mp hentry, hbad⟩
  · rintro ⟨canonical, hentry, hbad⟩
    refine Or.inr ⟨(apparent, canonical), List.mem_filter.mpr ⟨?_, hbad⟩, rfl⟩
    exact Std.ExtTreeMap.mem_toList_iff_getElem?_eq_some.mpr hentry

/-- The set of names says of a label what looking its repository up says. -/
theorem isUnavailableLabel_eq (names : StringMap String) (failed : FailedExtensions)
    (label : String) :
    isUnavailableLabel (unavailableApparent names failed) failed label =
      (labelCanonical names label).any fun canonical => hasUnavailableMapping canonical failed := by
  rw [isUnavailableLabel, labelCanonical]
  cases splitOnce "//" label with
  | none => rfl
  | some parts =>
      obtain ⟨repo, rest⟩ := parts
      dsimp only [Option.bind_eq_bind, Option.bind_some]
      cases stripPrefix "@@" repo with
      | some canonical => rfl
      | none =>
          cases stripPrefix "@" repo with
          | none => rfl
          | some apparent =>
              rw [Option.any_some, Bool.eq_iff_iff, Std.ExtTreeSet.contains_iff_mem,
                mem_unavailableApparent]
              simp [Option.any_eq_true]

theorem mem_referencedRepositories {names : StringMap String} {targets : List Target}
    {canonical : String} :
    canonical ∈ referencedRepositories names targets ↔
      ∃ target ∈ targets, ∃ label ∈ namedLabels target,
        labelCanonical names label = some canonical := by
  rw [referencedRepositories, mem_foldl_insert, List.mem_filterMap]
  simp only [List.mem_flatMap]
  constructor
  · rintro (hmem | ⟨label, ⟨target, htarget, hlabel⟩, hcanonical⟩)
    · exact absurd hmem Std.ExtTreeSet.not_mem_empty
    · exact ⟨target, htarget, label, hlabel, hcanonical⟩
  · rintro ⟨target, htarget, label, hlabel, hcanonical⟩
    exact Or.inr ⟨label, ⟨target, htarget, hlabel⟩, hcanonical⟩

/-- An offense depends only on what is said of the labels the target names. -/
theorem offense_congr {unavailable unavailable' : String → Bool} {target : Target}
    (h : ∀ label ∈ namedLabels target, unavailable label = unavailable' label) :
    offense unavailable target = offense unavailable' target := by
  rw [offense, offense, ← List.head?_filter, ← List.head?_filter, List.filter_congr h]

theorem offense_isSome {unavailable : String → Bool} {target : Target} :
    (offense unavailable target).isSome = (namedLabels target).any unavailable := by
  rw [offense, Option.isSome_map, List.isSome_find?]

/-- Nothing is reported when no target names an unavailable repository. -/
theorem offendersIn_eq_nil {bad : String → Bool} {names : StringMap String}
    {targets : List Target} :
    offendersIn bad names targets = [] ↔
      ∀ target ∈ targets, ∀ label ∈ namedLabels target, ∀ canonical,
        labelCanonical names label = some canonical → bad canonical = false := by
  rw [offendersIn, List.filterMap_eq_nil_iff]
  refine forall₂_congr fun target _ => ?_
  rw [← Option.not_isSome_iff_eq_none, offense_isSome, List.any_eq_true]
  simp only [not_exists, not_and, Option.any_eq_true, Bool.not_eq_true]

theorem offendersVerdict_eq_none {keepGoing : Bool} {extensions : StringSet}
    {offenders : List String} :
    offendersVerdict keepGoing extensions offenders = .ok none ↔ offenders = [] := by
  rw [offendersVerdict]
  by_cases hnone : offenders = []
  · simp [hnone]
  · cases keepGoing <;> simp [hnone, bail]

/-- Under `--keep_going` there is at most a warning. -/
theorem offendersVerdict_keepGoing (extensions : StringSet) (offenders : List String) :
    ∃ warning, offendersVerdict true extensions offenders = .ok warning := by
  rw [offendersVerdict]
  split
  · exact ⟨none, rfl⟩
  · exact ⟨_, rfl⟩

variable {mapping} {unavailable : String → Bool}

/-- The repositories that are looked up are those the targets name, without their markers. -/
theorem mem_looked {names : StringMap String} {targets : List Target} {name : String} :
    name ∈ (referencedRepositories names targets).toList.map (trimStart '@') ↔
      ∃ target ∈ targets, ∃ label ∈ namedLabels target, ∃ canonical,
        labelCanonical names label = some canonical ∧ trimStart '@' canonical = name := by
  simp only [List.mem_map, Std.ExtTreeSet.mem_toList, mem_referencedRepositories]
  constructor
  · rintro ⟨canonical, ⟨target, htarget, label, hlabel, hcanonical⟩, hname⟩
    exact ⟨target, htarget, label, hlabel, canonical, hcanonical, hname⟩
  · rintro ⟨target, htarget, label, hlabel, canonical, hcanonical, hname⟩
    exact ⟨canonical, ⟨target, htarget, label, hlabel, hcanonical⟩, hname⟩

/-- Once the repositories the targets name were looked up, an unavailable label is one in a
repository without a mapping. -/
theorem isUnavailableLabel_found {names : StringMap String} {targets : List Target}
    {failed found : FailedExtensions}
    (hmem : ∀ name, name ∈ found.unavailable ↔ name ∈ failed.unavailable ∨
      name ∈ (referencedRepositories names targets).toList.map (trimStart '@') ∧
        isExtensionRepo name = true ∧ unavailable name = true)
    {target : Target} (htarget : target ∈ targets) {label : String}
    (hlabel : label ∈ namedLabels target) :
    isUnavailableLabel (unavailableApparent names found) found label =
      (labelCanonical names label).any (isUnmapped unavailable failed) := by
  rw [isUnavailableLabel_eq]
  cases hcanonical : labelCanonical names label with
  | none => rfl
  | some canonical =>
      have hasked := mem_looked.mpr ⟨target, htarget, label, hlabel, canonical, hcanonical, rfl⟩
      rw [Option.any_some, Option.any_some, Bool.eq_iff_iff, hasUnavailableMapping,
        Std.ExtTreeSet.contains_iff_mem, hmem, isUnmapped, Bool.or_eq_true,
        hasUnavailableMapping, Std.ExtTreeSet.contains_iff_mem, isFound, isDown,
        Bool.and_eq_true]
      constructor
      · rintro (hold | ⟨-, hextension, hdown⟩)
        · exact Or.inl hold
        · exact Or.inr ⟨hdown, hextension⟩
      · rintro (hold | ⟨hdown, hextension⟩)
        · exact Or.inl hold
        · exact Or.inr ⟨hasked, hextension, hdown⟩

/-- After an extension failure the check reports exactly the targets that name, under any name, a
repository that was recorded as unavailable or is an extension repository Bazel cannot map. It
passes exactly when there is none, and fails only when failures are not to be passed over. -/
theorem failed_references_exact (hmapping : MapsAvailable mapping unavailable) (budget : Nat)
    (keepGoing : Bool) (targets : List Target) {failed : FailedExtensions}
    (hfailed : failed.isEmpty = false) (canonicalToApparent : StringMap (List String)) :
    let names := apparentToCanonical canonicalToApparent
    let checked := checkFailedExtensionReferences mapping budget keepGoing targets failed
      canonicalToApparent
    checked.1 = offendersVerdict keepGoing checked.2.extensions
        (offendersIn (isUnmapped unavailable failed) names targets) ∧
      (∀ name, name ∈ checked.2.unavailable ↔ name ∈ failed.unavailable ∨
        (∃ target ∈ targets, ∃ label ∈ namedLabels target, ∃ canonical,
            labelCanonical names label = some canonical ∧ trimStart '@' canonical = name) ∧
          isExtensionRepo name = true ∧ unavailable name = true) ∧
      (checked.1 = .ok none ↔ ∀ target ∈ targets, ∀ label ∈ namedLabels target, ∀ canonical,
        labelCanonical names label = some canonical →
          isUnmapped unavailable failed canonical = false) ∧
      (keepGoing = true → ∃ warning, checked.1 = .ok warning) := by
  intro names checked
  obtain ⟨found, hfound, hmem⟩ := findUnavailableRepositories_finds hmapping budget
    (referencedRepositories names targets).toList failed
  have hoffenders : targets.filterMap
      (offense (isUnavailableLabel (unavailableApparent names found) found)) =
        offendersIn (isUnmapped unavailable failed) names targets := by
    rw [offendersIn]
    apply List.filterMap_congr
    intro target htarget
    exact offense_congr fun label hlabel => isUnavailableLabel_found hmem htarget hlabel
  have hchecked : checked = (offendersVerdict keepGoing found.extensions
      (offendersIn (isUnmapped unavailable failed) names targets), found) := by
    show checkFailedExtensionReferences mapping budget keepGoing targets failed _ = _
    rw [checkFailedExtensionReferences, hfailed, if_neg Bool.false_ne_true]
    dsimp only
    rw [hfound]
    dsimp only
    rw [hoffenders]
  rw [hchecked]
  refine ⟨rfl, fun name => ?_, ?_, ?_⟩
  · rw [hmem name, mem_looked]
  · rw [offendersVerdict_eq_none, offendersIn_eq_nil]
  · rintro rfl
    exact offendersVerdict_keepGoing _ _

/-- A rule that reads the broken repository by the name the root has for it. -/
def brokenReader : Target where
  type := .rule
  rule := some { name := "//app:lib", ruleInput := ["//app:lib.rs", "@a//:defs"] }

/-- The reader is reported, though the query did not fail. -/
theorem failed_references_exact_reader :
    (checkFailedExtensionReferences mapBroken 4096 false [brokenReader] { observed := true }
      ((∅ : StringMap (List String)).insert "rules++deps+a" ["a"])).1 ≠ .ok none := by
  have hfailed : ({ observed := true } : FailedExtensions).isEmpty = false := rfl
  obtain ⟨-, -, hpasses, -⟩ := failed_references_exact mapsAvailable_mapBroken 4096 false
    [brokenReader] hfailed ((∅ : StringMap (List String)).insert "rules++deps+a" ["a"])
  rw [ne_eq, hpasses]
  intro hnone
  have hreader := hnone brokenReader (List.mem_singleton_self _) "@a//:defs"
    (by decide +kernel) "rules++deps+a" (by decide +kernel)
  exact absurd hreader (by decide +kernel)

end BazelDiff
