/-
# Coverage of a scoped query

With an isolated root, the targets of a query are recorded in batches: the primary answer, then
a supplement. What is recorded says which names and files of the scope have been returned,
which inputs in the scope are still missing, and which targets read the scope directly. A batch
is recorded in two passes, and a later batch may supply a name an earlier one missed. What the
record holds depends on the targets alone, not on how they came in batches.
-/

import BazelDiff.Target
import BazelDiff.Partial.Tree

namespace BazelDiff

open Text

/-! ## The scope -/

/-- The repositories of an isolated root, and the names the root module has for them. -/
structure IsolatedRepoScope where
  members : StringSet := ∅
  aliases : StringMap String := ∅

namespace IsolatedRepoScope

variable (scope : IsolatedRepoScope)

/-- The member a repository name stands for. -/
def member (repo : String) : Option String :=
  match stripPrefix "@" repo with
  | some name => if scope.members.contains name then some name else none
  | none => (scope.aliases[repo]?).filter scope.members.contains

/-- The canonical spelling of a label in the scope. -/
def canonical (label : String) : Option String := do
  let (repo, rest) ← splitOnce "//" (← stripPrefix "@" label)
  let canonical ← scope.member repo
  return "@@" ++ canonical ++ "//" ++ rest

/-- The name of a target, when it lies in the scope. -/
def nameOf (target : Target) : Option String :=
  (targetName target).bind scope.canonical

/-- The name of a source file in the scope. -/
def fileOf (target : Target) : Option String :=
  target.sourceFile.bind fun file => scope.canonical file.name

/-- The inputs of a rule that lie in the scope. -/
def inputsOf (target : Target) : List String :=
  ((target.rule.map (·.ruleInput)).getD []).filterMap scope.canonical

end IsolatedRepoScope

/-! ## The record -/

structure ScopedCoverage where
  names : StringSet := ∅
  files : StringSet := ∅
  missing : StringSet := ∅
  directReaders : List Bool := []
  deriving DecidableEq

namespace ScopedCoverage

variable (scope : IsolatedRepoScope)

/-- The first pass over a batch, for one target. -/
def recordName (coverage : ScopedCoverage) (target : Target) : ScopedCoverage :=
  let coverage := match scope.nameOf target with
    | some name => { coverage with
        missing := coverage.missing.erase name
        names := coverage.names.insert name }
    | none => coverage
  match scope.fileOf target with
  | some name => { coverage with files := coverage.files.insert name }
  | none => coverage

/-- The second pass over a batch, for one target. -/
def recordInputs (coverage : ScopedCoverage) (target : Target) : ScopedCoverage :=
  let inputs := scope.inputsOf target
  { coverage with
    missing := inputs.foldl
      (fun missing input =>
        if coverage.names.contains input then missing else missing.insert input)
      coverage.missing
    directReaders := coverage.directReaders ++ [!inputs.isEmpty] }

def record (coverage : ScopedCoverage) (targets : List Target) : ScopedCoverage :=
  targets.foldl (recordInputs scope) (targets.foldl (recordName scope) coverage)

/-- The record after a sequence of batches. -/
def recordAll (calls : List (List Target)) : ScopedCoverage :=
  calls.foldl (record scope) {}

/-! ## What the passes do -/

variable {scope}

/-- The first pass adds the names of the targets and takes them from what is missing. -/
theorem mem_recordNames (coverage : ScopedCoverage) (targets : List Target) (name : String) :
    (name ∈ (targets.foldl (recordName scope) coverage).names ↔
      name ∈ coverage.names ∨ ∃ target ∈ targets, scope.nameOf target = some name) ∧
    (name ∈ (targets.foldl (recordName scope) coverage).files ↔
      name ∈ coverage.files ∨ ∃ target ∈ targets, scope.fileOf target = some name) ∧
    (name ∈ (targets.foldl (recordName scope) coverage).missing ↔
      name ∈ coverage.missing ∧ ¬ ∃ target ∈ targets, scope.nameOf target = some name) ∧
    (targets.foldl (recordName scope) coverage).directReaders = coverage.directReaders := by
  induction targets generalizing coverage with
  | nil => simp
  | cons target rest ih =>
      obtain ⟨hnames, hfiles, hmissing, hreaders⟩ := ih (recordName scope coverage target)
      rw [List.foldl_cons, hnames, hfiles, hmissing, hreaders, List.exists_mem_cons_iff,
        List.exists_mem_cons_iff, recordName]
      cases scope.nameOf target <;> cases scope.fileOf target <;>
        simp [Std.ExtTreeSet.mem_insert, Std.ExtTreeSet.mem_erase, or_assoc, or_left_comm,
          and_assoc, and_left_comm]

/-- The inputs of one target that nothing recorded names are missing from now on. -/
theorem mem_missing_recordInputs (coverage : ScopedCoverage) (target : Target) (name : String) :
    name ∈ (recordInputs scope coverage target).missing ↔
      name ∈ coverage.missing ∨ (name ∈ scope.inputsOf target ∧ name ∉ coverage.names) := by
  have hfold : ∀ (inputs : List String) (missing : StringSet),
      name ∈ inputs.foldl (fun missing input =>
          if coverage.names.contains input then missing else missing.insert input) missing ↔
        name ∈ missing ∨ (name ∈ inputs ∧ name ∉ coverage.names) := by
    intro inputs
    induction inputs with
    | nil => simp
    | cons input rest ih =>
        intro missing
        rw [List.foldl_cons, ih, List.mem_cons]
        by_cases hnamed : input ∈ coverage.names
        · rw [if_pos (Std.ExtTreeSet.contains_iff_mem.mpr hnamed)]
          have hsame : (name = input ∨ name ∈ rest) ∧ name ∉ coverage.names ↔
              name ∈ rest ∧ name ∉ coverage.names := by
            constructor
            · rintro ⟨rfl | hrest, hnot⟩
              · exact absurd hnamed hnot
              · exact ⟨hrest, hnot⟩
            · rintro ⟨hrest, hnot⟩
              exact ⟨Or.inr hrest, hnot⟩
          rw [hsame]
        · rw [if_neg (fun h => hnamed (Std.ExtTreeSet.contains_iff_mem.mp h)),
            Std.ExtTreeSet.mem_insert, compare_eq_iff_eq, or_and_right, or_comm (a := input = name),
            or_assoc]
          apply or_congr_right
          apply or_congr_left
          constructor
          · rintro rfl
            exact ⟨rfl, hnamed⟩
          · rintro ⟨rfl, -⟩
            rfl
  exact hfold (scope.inputsOf target) coverage.missing

/-- The second pass leaves the names alone, adds the inputs without a name to what is missing
and one flag a target. -/
theorem mem_recordInputs (coverage : ScopedCoverage) (targets : List Target) (name : String) :
    (targets.foldl (recordInputs scope) coverage).names = coverage.names ∧
    (targets.foldl (recordInputs scope) coverage).files = coverage.files ∧
    (name ∈ (targets.foldl (recordInputs scope) coverage).missing ↔ name ∈ coverage.missing ∨
      ((∃ target ∈ targets, name ∈ scope.inputsOf target) ∧ name ∉ coverage.names)) ∧
    (targets.foldl (recordInputs scope) coverage).directReaders =
      coverage.directReaders ++ targets.map fun target => !(scope.inputsOf target).isEmpty := by
  induction targets generalizing coverage with
  | nil => simp
  | cons target rest ih =>
      obtain ⟨hnames, hfiles, hmissing, hreaders⟩ := ih (recordInputs scope coverage target)
      rw [List.foldl_cons]
      refine ⟨hnames, hfiles, ?_, ?_⟩
      · have hkept : (recordInputs scope coverage target).names = coverage.names := rfl
        rw [hmissing, mem_missing_recordInputs, hkept, List.exists_mem_cons_iff, or_and_right,
          or_assoc]
      · rw [hreaders, List.map_cons]
        show (coverage.directReaders ++ [_]) ++ _ = _
        rw [List.append_assoc, List.singleton_append]

/-! ## What a record says about the targets -/

/-- The record of the targets: the names and files in the scope that were returned, the inputs
in the scope that were not, and which target reads the scope. -/
structure Covers (scope : IsolatedRepoScope) (targets : List Target)
    (coverage : ScopedCoverage) : Prop where
  names : ∀ name, name ∈ coverage.names ↔ ∃ target ∈ targets, scope.nameOf target = some name
  files : ∀ name, name ∈ coverage.files ↔ ∃ target ∈ targets, scope.fileOf target = some name
  missing : ∀ name, name ∈ coverage.missing ↔
    (∃ target ∈ targets, name ∈ scope.inputsOf target) ∧
      ¬ ∃ target ∈ targets, scope.nameOf target = some name
  directReaders : coverage.directReaders =
    targets.map fun target => !(scope.inputsOf target).isEmpty

/-- Nothing is recorded at first. -/
theorem covers_nil : Covers scope [] {} where
  names := by simp
  files := by simp
  missing := by simp
  directReaders := rfl

/-- A batch adds its targets to the record. -/
theorem Covers.record {done : List Target} {coverage : ScopedCoverage}
    (h : Covers scope done coverage) (targets : List Target) :
    Covers scope (done ++ targets) (coverage.record scope targets) := by
  have happend : ∀ P : Target → Prop, (∃ target ∈ done ++ targets, P target) ↔
      (∃ target ∈ done, P target) ∨ ∃ target ∈ targets, P target := by
    intro P
    simp only [List.mem_append, or_and_right, exists_or]
  have hnames := fun name => (@mem_recordNames scope coverage targets name).1
  constructor
  · intro name
    rw [ScopedCoverage.record, (mem_recordInputs _ targets name).1, hnames, h.names, happend]
  · intro name
    rw [ScopedCoverage.record, (mem_recordInputs _ targets name).2.1,
      (mem_recordNames coverage targets name).2.1, h.files, happend]
  · intro name
    rw [ScopedCoverage.record, (mem_recordInputs _ targets name).2.2.1, hnames,
      (mem_recordNames coverage targets name).2.2.1, h.missing, h.names, happend, happend,
      not_or, or_and_right, and_assoc]
  · rw [ScopedCoverage.record, (mem_recordInputs _ targets "").2.2.2,
      (mem_recordNames coverage targets "").2.2.2, h.directReaders, List.map_append]

/-- The targets determine the record. -/
theorem Covers.unique {targets : List Target} {coverage coverage' : ScopedCoverage}
    (h : Covers scope targets coverage) (h' : Covers scope targets coverage') :
    coverage = coverage' := by
  obtain ⟨names, files, missing, readers⟩ := coverage
  obtain ⟨names', files', missing', readers'⟩ := coverage'
  obtain rfl : names = names' := Std.ExtTreeSet.ext_mem fun name =>
    (h.names name).trans (h'.names name).symm
  obtain rfl : files = files' := Std.ExtTreeSet.ext_mem fun name =>
    (h.files name).trans (h'.files name).symm
  obtain rfl : missing = missing' := Std.ExtTreeSet.ext_mem fun name =>
    (h.missing name).trans (h'.missing name).symm
  obtain rfl : readers = readers' := h.directReaders.trans h'.directReaders.symm
  rfl

theorem covers_recordAll (scope : IsolatedRepoScope) (calls : List (List Target)) :
    Covers scope calls.flatten (recordAll scope calls) := by
  have hfold : ∀ (calls : List (List Target)) (done : List Target) (coverage : ScopedCoverage),
      Covers scope done coverage →
        Covers scope (done ++ calls.flatten) (calls.foldl (ScopedCoverage.record scope) coverage) := by
    intro calls
    induction calls with
    | nil =>
        intro done coverage h
        rw [List.flatten_nil, List.append_nil]
        exact h
    | cons call rest ih =>
        intro done coverage h
        rw [List.flatten_cons, ← List.append_assoc, List.foldl_cons]
        exact ih _ _ (h.record call)
  exact hfold calls [] {} covers_nil

/-- Whatever the batches, the record is that of the targets: its names and files are those of
the targets in the scope, what is missing are the inputs in the scope without a target of that
name, and it has one flag a target, in order. Any other batches of the same targets leave the
same record. -/
theorem coverage_independent_of_batching (scope : IsolatedRepoScope)
    (calls : List (List Target)) :
    Covers scope calls.flatten (recordAll scope calls) ∧
      ∀ calls' : List (List Target), calls'.flatten = calls.flatten →
        recordAll scope calls' = recordAll scope calls := by
  constructor
  · exact covers_recordAll scope calls
  · intro calls' hsame
    have hother := covers_recordAll scope calls'
    rw [hsame] at hother
    exact hother.unique (covers_recordAll scope calls)

end ScopedCoverage

end BazelDiff
