/-
# The cache key contract

Every producer of hash entries files an entry under the revision's git tree and a
fingerprint of the configuration. The fingerprint is a digest of the option values, each
followed by a NUL. Lists of options are joined with the same NUL, so the values of two
configurations that only draw the boundaries between lists differently are one sequence.
-/

import BazelDiff.Lib.UnixPath
import BazelDiff.Partial.Recipe

namespace BazelDiff

open Text HashFunction
open UnixPath (PathSet)

/-- `CARGO_PKG_VERSION`. -/
def packageVersion : String := "39.0.0"

/-- The values that are always folded into a fingerprint. -/
def configurationValues (options : HashOptions) (trackDeps : Bool) : List String :=
  [join "\x00" options.bazel.startupOptions,
    join "\x00" options.bazel.commandOptions,
    join "\x00" options.bazel.cqueryOptions,
    toString options.bazel.useCquery,
    options.bazel.cqueryExpression.getD "",
    toString options.bazel.keepGoing,
    toString options.bazel.excludeExternalTargets,
    options.bazel.excludeTargetsQuery.getD "",
    join "," options.bazel.fineGrainedExternalRepos.toList,
    join "," options.bazel.labelOnlyModuleExtensions.toList,
    join "," options.ignoredAttributes.toList,
    join "\x00" options.seedFilepaths,
    join "," options.alwaysAffectedTags.toList,
    toString trackDeps,
    "sourceContent=git-blob"]

/-- Everything a fingerprint is a digest of, in order. -/
def configurationTexts (options : HashOptions) (trackDeps partialGraph : Bool) : List String :=
  packageVersion :: configurationValues options trackDeps ++
    (options.bazel.isolatedDependencyRoot.map ("isolatedDependencyRoot=" ++ ·)).toList ++
    if partialGraph then ["partialGraph=" ++ toString recipeVersion] else []

/-- The bytes a fingerprint is a digest of: every text is followed by a zero byte. -/
def configurationInput (options : HashOptions) (trackDeps partialGraph : Bool) : List UInt8 :=
  (configurationTexts options trackDeps partialGraph).flatMap fun text => utf8 text ++ [0]

section Keys

variable (D : Type) [HashFunction D]

/-- The first twelve hexadecimal digits of a digest. -/
def shortHex (input : List UInt8) : String :=
  String.ofList ((hexDigest (digest input : D)).toList.take 12)

def configurationFingerprint (options : HashOptions) (trackDeps partialGraph : Bool) : String :=
  shortHex D (configurationInput options trackDeps partialGraph)

/-- The bytes the scope of an entry is a digest of: every path is followed by a newline. -/
def scopeInput (modified : PathSet) : List UInt8 :=
  modified.paths.flatMap fun path => utf8 path ++ utf8 "\n"

/-- The key of a revision's entry. A scoped entry also carries a digest of its paths. -/
def cacheKey (tree fingerprint : String) (modified : PathSet) : String :=
  let base := tree ++ "." ++ fingerprint
  if modified.paths.isEmpty then base
  else base ++ "." ++ shortHex D (scopeInput modified)

end Keys

/-! ## Configurations with one fingerprint -/

/-- Two configurations that agree on everything the fingerprint folds in. -/
structure SameConfiguration (o₁ o₂ : HashOptions) (trackDeps₁ trackDeps₂ : Bool)
    (partialGraph₁ partialGraph₂ : Bool) : Prop where
  startupOptions : o₁.bazel.startupOptions = o₂.bazel.startupOptions
  commandOptions : o₁.bazel.commandOptions = o₂.bazel.commandOptions
  cqueryOptions : o₁.bazel.cqueryOptions = o₂.bazel.cqueryOptions
  useCquery : o₁.bazel.useCquery = o₂.bazel.useCquery
  cqueryExpression : o₁.bazel.cqueryExpression = o₂.bazel.cqueryExpression
  keepGoing : o₁.bazel.keepGoing = o₂.bazel.keepGoing
  excludeExternalTargets : o₁.bazel.excludeExternalTargets = o₂.bazel.excludeExternalTargets
  excludeTargetsQuery : o₁.bazel.excludeTargetsQuery = o₂.bazel.excludeTargetsQuery
  fineGrained : o₁.bazel.fineGrainedExternalRepos = o₂.bazel.fineGrainedExternalRepos
  labelOnly : o₁.bazel.labelOnlyModuleExtensions = o₂.bazel.labelOnlyModuleExtensions
  ignoredAttributes : o₁.ignoredAttributes = o₂.ignoredAttributes
  seedFilepaths : o₁.seedFilepaths = o₂.seedFilepaths
  alwaysAffectedTags : o₁.alwaysAffectedTags = o₂.alwaysAffectedTags
  isolatedRoot : o₁.bazel.isolatedDependencyRoot = o₂.bazel.isolatedDependencyRoot
  trackDeps : trackDeps₁ = trackDeps₂
  partialGraph : partialGraph₁ = partialGraph₂

/-- The options of a list; an empty list counts as one empty option. -/
def listed : List String → List String
  | [] => [""]
  | options => options

/-- All options of a configuration one after another: where a list ends is not marked, an absent
text is an empty one, and a set is its names with commas between them. -/
def configurationOptions (options : HashOptions) (trackDeps partialGraph : Bool) : List String :=
  packageVersion :: listed options.bazel.startupOptions ++ listed options.bazel.commandOptions ++
    listed options.bazel.cqueryOptions ++
    [toString options.bazel.useCquery,
      options.bazel.cqueryExpression.getD "",
      toString options.bazel.keepGoing,
      toString options.bazel.excludeExternalTargets,
      options.bazel.excludeTargetsQuery.getD "",
      join "," options.bazel.fineGrainedExternalRepos.toList,
      join "," options.bazel.labelOnlyModuleExtensions.toList,
      join "," options.ignoredAttributes.toList] ++
    listed options.seedFilepaths ++
    [join "," options.alwaysAffectedTags.toList, toString trackDeps, "sourceContent=git-blob"] ++
    (options.bazel.isolatedDependencyRoot.map ("isolatedDependencyRoot=" ++ ·)).toList ++
    if partialGraph then ["partialGraph=" ++ toString recipeVersion] else []

/-- The options one after another, cut at the NULs in them if there are any. -/
def configurationPieces (options : HashOptions) (trackDeps partialGraph : Bool) : List String :=
  (configurationOptions options trackDeps partialGraph).flatMap (split '\x00')

/-- Options without a NUL are their own pieces. -/
theorem configurationPieces_of_nulFree {options : HashOptions} {trackDeps partialGraph : Bool}
    (h : ∀ option ∈ configurationOptions options trackDeps partialGraph,
      '\x00' ∉ option.toList) :
    configurationPieces options trackDeps partialGraph =
      configurationOptions options trackDeps partialGraph :=
  flatMap_split_of_notMem h

theorem split_joined (options : List String) :
    split '\x00' (join "\x00" options) = (listed options).flatMap (split '\x00') := by
  cases options with
  | nil => rfl
  | cons option rest => exact split_join '\x00' (List.cons_ne_nil _ _)

theorem flatMap_configurationTexts (options : HashOptions) (trackDeps partialGraph : Bool) :
    (configurationTexts options trackDeps partialGraph).flatMap (split '\x00') =
      configurationPieces options trackDeps partialGraph := by
  simp only [configurationTexts, configurationValues, configurationPieces, configurationOptions,
    List.flatMap_append, List.flatMap_cons, split_joined, List.append_assoc,
    List.cons_append, List.nil_append]

/-- The bytes of a fingerprint say which options a configuration has one after another, and
nothing else. -/
theorem configurationInput_eq_iff (o₁ o₂ : HashOptions) (trackDeps₁ trackDeps₂ : Bool)
    (partialGraph₁ partialGraph₂ : Bool) :
    configurationInput o₁ trackDeps₁ partialGraph₁ =
        configurationInput o₂ trackDeps₂ partialGraph₂ ↔
      configurationPieces o₁ trackDeps₁ partialGraph₁ =
        configurationPieces o₂ trackDeps₂ partialGraph₂ := by
  rw [← flatMap_configurationTexts, ← flatMap_configurationTexts]
  exact utf8_ended_eq_iff '\x00' _ _

/-- Two configurations are told apart exactly when they are one configuration or their options,
one after another, differ. -/
theorem configurations_separated_iff (o₁ o₂ : HashOptions) (trackDeps₁ trackDeps₂ : Bool)
    (partialGraph₁ partialGraph₂ : Bool) :
    (¬ SameConfiguration o₁ o₂ trackDeps₁ trackDeps₂ partialGraph₁ partialGraph₂ →
      configurationInput o₁ trackDeps₁ partialGraph₁ ≠
        configurationInput o₂ trackDeps₂ partialGraph₂) ↔
    (SameConfiguration o₁ o₂ trackDeps₁ trackDeps₂ partialGraph₁ partialGraph₂ ∨
      configurationPieces o₁ trackDeps₁ partialGraph₁ ≠
        configurationPieces o₂ trackDeps₂ partialGraph₂) := by
  rw [ne_eq, configurationInput_eq_iff, ← or_iff_not_imp_left]

/-- Two configurations that differ in where the startup options end. -/
theorem configurations_not_separated :
    ∃ o₁ o₂ : HashOptions, ¬ SameConfiguration o₁ o₂ false false false false ∧
      configurationInput o₁ false false = configurationInput o₂ false false :=
  ⟨{ bazel := { startupOptions := ["--batch"], commandOptions := ["--a", "--b"] } },
    { bazel := { startupOptions := ["--batch", "--a"], commandOptions := ["--b"] } },
    fun h => absurd h.startupOptions (by decide), by decide +kernel⟩

end BazelDiff
