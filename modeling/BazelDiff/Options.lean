/-
# Failures and hashing options

Fallible code returns an `Except Failure`. A failure is an error the program
reports, a panic, or the running out of the recursion budget of a modelled
traversal, which never happens and is proved not to.
-/

import BazelDiff.Partial.Tree

namespace BazelDiff

inductive Failure
  /-- An error that is reported to the caller, with its message. -/
  | error (message : String)
  /-- A panic, with its message. -/
  | panic (message : String)
  /-- The recursion budget of a modelled traversal ran out. -/
  | outOfFuel
  deriving DecidableEq

abbrev Result (α : Type) := Except Failure α

/-- `bail!`. -/
def bail {α : Type} (message : String) : Result α :=
  .error (.error message)

/-- `ok_or_else` with an error. -/
def okOr {α : Type} (message : String) : Option α → Result α
  | some a => .ok a
  | none => bail message

theorem okOr_eq_ok {α : Type} {message : String} {a : Option α} {b : α}
    (h : okOr message a = .ok b) : a = some b := by
  cases a with
  | none => cases h
  | some a => cases h; rfl

/-- The Bazel options that reach a hash or the cache fingerprint. -/
structure BazelOptions where
  workspace : String := ""
  startupOptions : List String := []
  commandOptions : List String := []
  cqueryOptions : List String := []
  useCquery : Bool := false
  cqueryExpression : Option String := none
  keepGoing : Bool := false
  fineGrainedExternalRepos : StringSet := ∅
  labelOnlyModuleExtensions : StringSet := ∅
  isolatedDependencyRoot : Option String := none
  excludeExternalTargets : Bool := false
  excludeTargetsQuery : Option String := none

structure HashOptions where
  bazel : BazelOptions := {}
  contentHashes : Option (StringMap String) := none
  ignoredAttributes : StringSet := ∅
  /-- The seed paths in the order their set iterates them, which is by components. -/
  seedFilepaths : List String := []
  /-- The scoped paths in the order their set iterates them. -/
  modifiedFilepaths : List String := []
  trackDeps : Bool := false
  alwaysAffectedTags : StringSet := ∅
  /-- Partial-graph mode: the hashed revision's tree. -/
  partialTree : Option TreeIndex := none

/-- Rejects hashing options partial-graph mode cannot honour. -/
def validateHashOptions (options : HashOptions) : Result Unit := do
  if options.bazel.useCquery then
    bail "--partialGraph does not support --useCquery"
  if !options.bazel.fineGrainedExternalRepos.isEmpty then
    bail "--partialGraph does not support --fineGrainedHashExternalRepos"
  if options.bazel.isolatedDependencyRoot.isSome then
    bail "--partialGraph does not support --isolatedDependencyRoot"
  if !options.alwaysAffectedTags.isEmpty then
    bail "--partialGraph does not support --alwaysAffectedTags"

/-- What the accepted options have in common. -/
theorem validateHashOptions_ok {options : HashOptions}
    (h : validateHashOptions options = .ok ()) :
    options.bazel.useCquery = false ∧ options.bazel.fineGrainedExternalRepos.isEmpty = true ∧
      options.bazel.isolatedDependencyRoot = none ∧
      options.alwaysAffectedTags.isEmpty = true := by
  simp only [validateHashOptions, bail, bind, Except.bind, pure, Except.pure] at h
  cases hcquery : options.bazel.useCquery <;>
    cases hfine : options.bazel.fineGrainedExternalRepos.isEmpty <;>
    cases hroot : options.bazel.isolatedDependencyRoot <;>
    cases htags : options.alwaysAffectedTags.isEmpty <;>
    simp_all

end BazelDiff
