/-
# Repositories Bazel cannot map

Bazel fails a whole invocation when one of the repositories it is asked about belongs to a
module extension that cannot be evaluated, and does not say which. Failed batches are split
until every batch that still fails has one name, and the invocation is tried again without
the names found.
-/

import BazelDiff.Hash.Inputs
import BazelDiff.Options
import Mathlib.Algebra.GroupWithZero.Nat

namespace BazelDiff

open Text

/-! ## What Bazel says about module extensions -/

/-- Extension diagnostics and the canonical repositories whose mappings failed. -/
structure FailedExtensions where
  /-- Bazel reported an extension failure, even if its diagnostic had no parseable id. -/
  observed : Bool := false
  extensions : StringSet := ∅
  unavailable : StringSet := ∅

def FailedExtensions.isEmpty (failed : FailedExtensions) : Bool :=
  !failed.observed && failed.extensions.isEmpty && failed.unavailable.isEmpty

/-- What a failed `bazel mod` invocation said about module extensions. -/
structure ExtensionFailure where
  extensions : StringSet
  /-- Whether Bazel answered for the repositories that do not need them. -/
  answered : Bool

def extensionFailureMarker : String := "Results may be incomplete as"

/-- The extension ids of a line of diagnostics. -/
def extensionIds (line : String) : List String :=
  if hasInfix "module extension" line then
    ((words line).filter fun word =>
      hasPrefix "@@" word && hasInfix "//" word && hasInfix "%" word).map
        (trimEnd fun c => c = '.' ∨ c = ',' ∨ c = ';' ∨ c = ':')
  else []

/-- Read diagnostics for module extensions that could not be evaluated. -/
def extensionFailure (stderr : String) : Option ExtensionFailure :=
  let answered := hasInfix extensionFailureMarker stderr
  let extensions := (lines stderr).flatMap extensionIds
  if answered || !extensions.isEmpty then
    some { extensions := extensions.foldl (·.insert ·) ∅, answered }
  else none

/-- The end of a `bazel mod` invocation. -/
structure ModOutput where
  success : Bool
  status : String := "exit status: 0"
  stderr : String := ""

/-- A failure that is not about module extensions. -/
def modFailure {α : Type} (subcommand : String) (output : ModOutput) : Result α :=
  bail ("bazel mod " ++ subcommand ++ " failed with " ++ output.status ++ ": " ++
    trim output.stderr)

def hasUnavailableMapping (canonical : String) (failed : FailedExtensions) : Bool :=
  failed.unavailable.contains (trimStart '@' canonical)

def noteFailedExtensions (failed : FailedExtensions) (extensions : StringSet) :
    FailedExtensions :=
  { failed with
    observed := true
    extensions := extensions.toList.foldl (·.insert ·) failed.extensions }

/-! ## Batches of names -/

/-- The loop of `chunkArguments`: the names of the chunk that is being filled, and their bytes
with separators. -/
def chunkFrom (budget : Nat) (chunk : List String) (bytes : Nat) : List String → List (List String)
  | [] => if chunk = [] then [] else [chunk]
  | argument :: rest =>
      let cost := (utf8 argument).length + 1
      if chunk ≠ [] ∧ budget < bytes + cost then chunk :: chunkFrom budget [argument] cost rest
      else chunkFrom budget (chunk ++ [argument]) (bytes + cost) rest

/-- Split names into consecutive runs within a budget of bytes, every run non-empty. -/
def chunkArguments (arguments : List String) (budget : Nat) : List (List String) :=
  chunkFrom budget [] 0 arguments

theorem chunkFrom_flatten (budget : Nat) (chunk : List String) (bytes : Nat)
    (arguments : List String) :
    (chunkFrom budget chunk bytes arguments).flatten = chunk ++ arguments := by
  induction arguments generalizing chunk bytes with
  | nil =>
      rw [chunkFrom]
      split
      · next h => simp [h]
      · simp
  | cons argument rest ih =>
      rw [chunkFrom]
      split
      · rw [List.flatten_cons, ih, List.singleton_append]
      · rw [ih, List.append_assoc, List.singleton_append]

@[simp]
theorem chunkArguments_flatten (arguments : List String) (budget : Nat) :
    (chunkArguments arguments budget).flatten = arguments :=
  chunkFrom_flatten budget [] 0 arguments

theorem ne_nil_of_mem_chunkFrom {budget : Nat} {arguments : List String} {chunk names : List String}
    {bytes : Nat} (h : names ∈ chunkFrom budget chunk bytes arguments) : names ≠ [] := by
  induction arguments generalizing chunk bytes with
  | nil =>
      rw [chunkFrom] at h
      split at h
      · exact absurd h List.not_mem_nil
      · next hne => exact List.mem_singleton.mp h ▸ hne
  | cons argument rest ih =>
      rw [chunkFrom] at h
      split at h
      · next hfull =>
          rcases List.mem_cons.mp h with rfl | h
          · exact hfull.1
          · exact ih h
      · exact ih h

/-- A run of names for one invocation. -/
structure Batch where
  names : List String
  nonempty : names ≠ []

/-- The batches of a list of names. -/
def batchesOf (names : List String) (budget : Nat) : List Batch :=
  (chunkArguments names budget).pmap Batch.mk fun _ h => ne_nil_of_mem_chunkFrom h

theorem flatMap_batchesOf (names : List String) (budget : Nat) :
    (batchesOf names budget).flatMap Batch.names = names := by
  rw [batchesOf, List.flatMap_def, List.map_pmap, List.pmap_eq_map, List.map_id',
    chunkArguments_flatten]

namespace Batch

variable (batch : Batch)

def left (h : 2 ≤ batch.names.length) : Batch where
  names := batch.names.take (batch.names.length / 2)
  nonempty := by
    intro hnil
    have hlength := congrArg List.length hnil
    rw [List.length_take, List.length_nil] at hlength
    omega

def right (h : 2 ≤ batch.names.length) : Batch where
  names := batch.names.drop (batch.names.length / 2)
  nonempty := by
    intro hnil
    have hlength := congrArg List.length hnil
    rw [List.length_drop, List.length_nil] at hlength
    omega

/-- How often a batch can still be asked for. -/
def weight : Nat := 2 * batch.names.length - 1

theorem weight_pos : 0 < batch.weight := by
  have hpos := List.length_pos_iff.mpr batch.nonempty
  rw [weight]
  omega

theorem weight_halves (h : 2 ≤ batch.names.length) :
    (batch.left h).weight + (batch.right h).weight < batch.weight := by
  rw [weight, weight, weight, left, right, List.length_take, List.length_drop]
  omega

theorem left_append_right (h : 2 ≤ batch.names.length) :
    (batch.left h).names ++ (batch.right h).names = batch.names :=
  List.take_append_drop _ _

end Batch

/-! ## Bisection -/

section Bisection

-- `bazel mod dump_repo_mapping` over some names.
variable (mapping : List String → Result ModOutput)

/-- Ask for the batches on the stack; a batch that fails is split, and a single name that fails
is recorded. What has been recorded stays when an invocation goes wrong. -/
def findUnavailableFrom (pending : List Batch) (failed : FailedExtensions) :
    Result Unit × FailedExtensions :=
  match pending with
  | [] => (.ok (), failed)
  | batch :: pending =>
      match mapping batch.names with
      | .error failure => (.error failure, failed)
      | .ok output =>
          if output.success then findUnavailableFrom pending failed
          else
            match (extensionFailure output.stderr).filter fun failure => !failure.answered with
            | none => (modFailure "dump_repo_mapping" output, failed)
            | some failure =>
                if h : 2 ≤ batch.names.length then
                  findUnavailableFrom (batch.left h :: batch.right h :: pending) failed
                else
                  let noted := noteFailedExtensions failed failure.extensions
                  findUnavailableFrom pending { noted with
                    unavailable := noted.unavailable.insert (batch.names.head batch.nonempty) }
termination_by (pending.map Batch.weight).sum
decreasing_by
  · rw [List.map_cons, List.sum_cons]
    have := batch.weight_pos
    omega
  · rw [List.map_cons, List.map_cons, List.map_cons, List.sum_cons, List.sum_cons, List.sum_cons]
    have := batch.weight_halves h
    omega
  · rw [List.map_cons, List.sum_cons]
    have := batch.weight_pos
    omega

/-- Identify the unavailable repositories among some names. -/
def findUnavailableRepositories (budget : Nat) (repos : List String) (failed : FailedExtensions) :
    Result Unit × FailedExtensions :=
  let repos := (repos.map (trimStart '@')).filter fun repo =>
    isExtensionRepo repo && !failed.unavailable.contains repo
  findUnavailableFrom mapping (batchesOf repos budget) failed

/-- The names without those whose mappings are known to fail. -/
def withoutFailed (repos : List String) (failed : FailedExtensions) : List String :=
  repos.filter fun repo => !hasUnavailableMapping repo failed

/-- The end of one attempt at a subcommand, with what it printed. -/
structure Attempt (α : Type) where
  output : ModOutput
  value : α

/-- The loop of `runModOverRepos`. -/
def runModFrom {α : Type} (budget : Nat) (subcommand : String)
    (attempt : List String → Result (Attempt α)) (repos : List String)
    (failed : FailedExtensions) : Result (Option α) × FailedExtensions :=
  if repos = [] then (.ok none, failed)
  else
    match attempt repos with
    | .error failure => (.error failure, failed)
    | .ok attempted =>
        if attempted.output.success then (.ok (some attempted.value), failed)
        else
          match extensionFailure attempted.output.stderr with
          | none => (modFailure subcommand attempted.output, failed)
          | some failure =>
              let noted := noteFailedExtensions failed failure.extensions
              if failure.answered then (.ok (some attempted.value), noted)
              else
                match findUnavailableRepositories mapping budget repos noted with
                | (.error failure, found) => (.error failure, found)
                | (.ok (), found) =>
                    if _h : (withoutFailed repos found).length = repos.length then
                      (modFailure subcommand attempted.output, found)
                    else runModFrom budget subcommand attempt (withoutFailed repos found) found
termination_by repos.length
decreasing_by
  exact lt_of_le_of_ne (List.length_filter_le _ _) _h

/-- Run a subcommand over some names, leaving out those of extensions Bazel cannot evaluate;
`none` once no name is left to ask about. -/
def runModOverRepos {α : Type} (budget : Nat) (subcommand : String)
    (attempt : List String → Result (Attempt α)) (repos : List String)
    (failed : FailedExtensions) : Result (Option α) × FailedExtensions :=
  runModFrom mapping budget subcommand attempt (withoutFailed repos failed) failed

/-! ## What is found -/

/-- The end of an invocation that failed because of a module extension, with nothing printed. -/
def Unanswered (output : ModOutput) : Prop :=
  output.success = false ∧
    ∃ failure, extensionFailure output.stderr = some failure ∧ failure.answered = false

variable {mapping} {unavailable : String → Bool}

/-- A mapping call fails exactly when it asks for an unavailable repository. -/
structure MapsAvailable (mapping : List String → Result ModOutput) (unavailable : String → Bool) :
    Prop where
  fails : ∀ names, names.any unavailable = true →
    ∃ output, mapping names = .ok output ∧ Unanswered output
  succeeds : ∀ names, names ≠ [] → names.any unavailable = false →
    ∃ output, mapping names = .ok output ∧ output.success = true

theorem MapsAvailable.keep (hmapping : MapsAvailable mapping unavailable) {names : List String}
    (h : names.any unavailable = true) :
    ∃ output failure, mapping names = .ok output ∧ output.success = false ∧
      (extensionFailure output.stderr).filter (fun failure => !failure.answered) =
        some failure := by
  obtain ⟨output, hrun, hsuccess, failure, hfailure, hanswered⟩ := hmapping.fails names h
  refine ⟨output, failure, hrun, hsuccess, ?_⟩
  rw [hfailure, Option.filter_some, hanswered]
  rfl

/-- A batch of available names is done with one call. -/
theorem findUnavailableFrom_clean (hmapping : MapsAvailable mapping unavailable) {batch : Batch}
    (h : batch.names.any unavailable = false) (pending : List Batch) (failed : FailedExtensions) :
    findUnavailableFrom mapping (batch :: pending) failed =
      findUnavailableFrom mapping pending failed := by
  obtain ⟨output, hrun, hsuccess⟩ := hmapping.succeeds batch.names batch.nonempty h
  rw [findUnavailableFrom]
  simp only [hrun, hsuccess, if_true]

theorem findUnavailableFrom_split (hmapping : MapsAvailable mapping unavailable) {batch : Batch}
    (h : batch.names.any unavailable = true) (hlength : 2 ≤ batch.names.length)
    (pending : List Batch) (failed : FailedExtensions) :
    findUnavailableFrom mapping (batch :: pending) failed =
      findUnavailableFrom mapping (batch.left hlength :: batch.right hlength :: pending)
        failed := by
  obtain ⟨output, failure, hrun, hsuccess, hfailure⟩ := hmapping.keep h
  rw [findUnavailableFrom]
  simp only [hrun, hsuccess, Bool.false_eq_true, if_false, hfailure, dif_pos hlength]

/-- A single name that fails is recorded. -/
theorem findUnavailableFrom_single (hmapping : MapsAvailable mapping unavailable) {batch : Batch}
    {name : String} (hname : batch.names = [name]) (h : unavailable name = true)
    (pending : List Batch) (failed : FailedExtensions) :
    ∃ noted, noted.unavailable = failed.unavailable.insert name ∧
      findUnavailableFrom mapping (batch :: pending) failed =
        findUnavailableFrom mapping pending noted := by
  have hany : batch.names.any unavailable = true := by simp [hname, h]
  obtain ⟨output, failure, hrun, hsuccess, hfailure⟩ := hmapping.keep hany
  have hlength : ¬ 2 ≤ batch.names.length := by simp [hname]
  have hhead : batch.names.head batch.nonempty = name := by simp [hname]
  refine ⟨{ noteFailedExtensions failed failure.extensions with
    unavailable := failed.unavailable.insert name }, rfl, ?_⟩
  rw [findUnavailableFrom]
  simp only [hrun, hsuccess, Bool.false_eq_true, if_false, hfailure, dif_neg hlength, hhead]
  rfl

/-- The stack is emptied, and exactly the unavailable names on it have been recorded. -/
theorem findUnavailableFrom_finds (hmapping : MapsAvailable mapping unavailable)
    (pending : List Batch) (failed : FailedExtensions) :
    ∃ found, findUnavailableFrom mapping pending failed = (.ok (), found) ∧
      ∀ name, name ∈ found.unavailable ↔ name ∈ failed.unavailable ∨
        name ∈ pending.flatMap Batch.names ∧ unavailable name = true := by
  induction hweight : (pending.map Batch.weight).sum using Nat.strong_induction_on
    generalizing pending failed with
  | h n ih =>
      subst hweight
      cases pending with
      | nil => exact ⟨failed, by rw [findUnavailableFrom], by simp⟩
      | cons batch pending =>
          have hpos := batch.weight_pos
          have hpop : (pending.map Batch.weight).sum < ((batch :: pending).map Batch.weight).sum := by
            rw [List.map_cons, List.sum_cons]
            omega
          rw [List.flatMap_cons]
          cases hany : batch.names.any unavailable with
          | false =>
              obtain ⟨found, hfound, hmem⟩ := ih _ hpop pending failed rfl
              rw [findUnavailableFrom_clean hmapping hany]
              refine ⟨found, hfound, fun name => (hmem name).trans (or_congr_right ?_)⟩
              have hclean : ∀ name ∈ batch.names, ¬ unavailable name = true :=
                List.any_eq_false.mp hany
              rw [List.mem_append]
              constructor
              · exact And.imp_left Or.inr
              · rintro ⟨hleft | hright, hbad⟩
                · exact absurd hbad (hclean name hleft)
                · exact ⟨hright, hbad⟩
          | true =>
              by_cases hlength : 2 ≤ batch.names.length
              · have hhalves := batch.weight_halves hlength
                obtain ⟨found, hfound, hmem⟩ := ih _ (by
                  simp only [List.map_cons, List.sum_cons]
                  omega) (batch.left hlength :: batch.right hlength :: pending) failed rfl
                rw [findUnavailableFrom_split hmapping hany hlength]
                refine ⟨found, hfound, fun name => ?_⟩
                rw [hmem name, List.flatMap_cons, List.flatMap_cons, ← List.append_assoc,
                  batch.left_append_right hlength]
              · obtain ⟨name, hname⟩ : ∃ name, batch.names = [name] := by
                  have hone := List.length_pos_iff.mpr batch.nonempty
                  exact List.length_eq_one_iff.mp (by omega)
                have hbad : unavailable name = true := by simpa [hname] using hany
                obtain ⟨noted, hnoted, hrun⟩ :=
                  findUnavailableFrom_single hmapping hname hbad pending failed
                obtain ⟨found, hfound, hmem⟩ := ih _ hpop pending noted rfl
                refine ⟨found, hrun.trans hfound, fun other => ?_⟩
                rw [hmem other, hnoted, Std.ExtTreeSet.mem_insert, Std.compare_eq_iff_eq, hname,
                  List.mem_append, List.mem_singleton]
                constructor
                · rintro ((rfl | h) | h)
                  · exact Or.inr ⟨Or.inl rfl, hbad⟩
                  · exact Or.inl h
                  · exact Or.inr ⟨Or.inr h.1, h.2⟩
                · rintro (h | ⟨rfl | h, hother⟩)
                  · exact Or.inl (Or.inr h)
                  · exact Or.inl (Or.inl rfl)
                  · exact Or.inr ⟨h, hother⟩

/-- Bisection adds exactly the unavailable extension repositories among the names. -/
theorem findUnavailableRepositories_finds (hmapping : MapsAvailable mapping unavailable)
    (budget : Nat) (repos : List String) (failed : FailedExtensions) :
    ∃ found, findUnavailableRepositories mapping budget repos failed = (.ok (), found) ∧
      ∀ name, name ∈ found.unavailable ↔ name ∈ failed.unavailable ∨
        name ∈ repos.map (trimStart '@') ∧ isExtensionRepo name = true ∧
          unavailable name = true := by
  obtain ⟨found, hfound, hmem⟩ := findUnavailableFrom_finds hmapping
    (batchesOf ((repos.map (trimStart '@')).filter fun repo =>
      isExtensionRepo repo && !failed.unavailable.contains repo) budget) failed
  refine ⟨found, hfound, fun name => ?_⟩
  rw [hmem name, flatMap_batchesOf, List.mem_filter]
  by_cases hknown : name ∈ failed.unavailable
  · simp [hknown]
  · have hcontains : failed.unavailable.contains name = false := by
      rw [← Bool.not_eq_true, Std.ExtTreeSet.contains_iff_mem]
      exact hknown
    simp [hknown, hcontains, and_assoc]

/-! ## What is answered -/

/-- Whether a name, with or without its `@@`, is of an unavailable repository. -/
def isDown (unavailable : String → Bool) (repo : String) : Bool :=
  unavailable (trimStart '@' repo)

/-- Whether bisection looks for a name and finds it unavailable. -/
def isFound (unavailable : String → Bool) (repo : String) : Bool :=
  isDown unavailable repo && isExtensionRepo (trimStart '@' repo)

/-- An attempt at a subcommand fails like a mapping call, and is answered otherwise, if perhaps
with a complaint about other extensions. -/
structure AnswersAvailable {α : Type} (attempt : List String → Result (Attempt α))
    (unavailable : String → Bool) (answer : List String → α) : Prop where
  fails : ∀ names, names.any (isDown unavailable) = true →
    ∃ attempted, attempt names = .ok attempted ∧ Unanswered attempted.output
  answers : ∀ names, names ≠ [] → names.any (isDown unavailable) = false →
    ∃ attempted, attempt names = .ok attempted ∧ attempted.value = answer names ∧
      (attempted.output.success = true ∨ ∃ failure,
        extensionFailure attempted.output.stderr = some failure ∧ failure.answered = true)

variable {α : Type} {attempt : List String → Result (Attempt α)} {answer : List String → α}

/-- Names that are all available are answered for at once. -/
theorem runModFrom_available (hattempt : AnswersAvailable attempt unavailable answer)
    (budget : Nat) (subcommand : String) {repos : List String}
    (h : repos.any (isDown unavailable) = false) (failed : FailedExtensions) :
    (runModFrom mapping budget subcommand attempt repos failed).1 =
      .ok (if repos = [] then none else some (answer repos)) := by
  rw [runModFrom]
  by_cases hne : repos = []
  · rw [if_pos hne, if_pos hne]
  · obtain ⟨attempted, hrun, hvalue, hend⟩ := hattempt.answers repos hne h
    rw [if_neg hne, if_neg hne]
    rcases hsuccess : attempted.output.success with _ | _
    · obtain ⟨failure, hfailure, hanswered⟩ := hend.resolve_left (by simp [hsuccess])
      simp only [hrun, hsuccess, Bool.false_eq_true, if_false, hfailure, hanswered, if_true, hvalue]
    · simp only [hrun, hsuccess, if_true, hvalue]

/-- With an unavailable name among them, the names go on without those that bisection finds;
when it finds none, the failure is reported. -/
theorem runModFrom_unavailable (hmapping : MapsAvailable mapping unavailable)
    (hattempt : AnswersAvailable attempt unavailable answer) (budget : Nat) (subcommand : String)
    {repos : List String} {failed : FailedExtensions}
    (hasked : ∀ repo ∈ repos, hasUnavailableMapping repo failed = false)
    (h : repos.any (isDown unavailable) = true) :
    ∃ found output,
      (∀ repo ∈ repos.filter (!isFound unavailable ·), hasUnavailableMapping repo found = false) ∧
      runModFrom mapping budget subcommand attempt repos failed =
        if (repos.filter (!isFound unavailable ·)).length = repos.length then
          (modFailure subcommand output, found)
        else runModFrom mapping budget subcommand attempt
          (repos.filter (!isFound unavailable ·)) found := by
  obtain ⟨attempted, hrun, hsuccess, failure, hfailure, hanswered⟩ := hattempt.fails repos h
  obtain ⟨found, hfind, hmem⟩ := findUnavailableRepositories_finds hmapping budget repos
    (noteFailedExtensions failed failure.extensions)
  have hknown : ∀ repo ∈ repos, hasUnavailableMapping repo found = isFound unavailable repo := by
    intro repo hrepo
    have hnot : trimStart '@' repo ∉ failed.unavailable := by
      rw [← Std.ExtTreeSet.contains_iff_mem, ← hasUnavailableMapping, hasked repo hrepo]
      exact Bool.false_ne_true
    rw [Bool.eq_iff_iff, hasUnavailableMapping, Std.ExtTreeSet.contains_iff_mem,
      hmem (trimStart '@' repo), isFound, isDown, Bool.and_eq_true]
    constructor
    · rintro (hold | ⟨-, hextension, hdown⟩)
      · exact absurd hold hnot
      · exact ⟨hdown, hextension⟩
    · rintro ⟨hdown, hextension⟩
      exact Or.inr ⟨List.mem_map_of_mem hrepo, hextension, hdown⟩
  have hremaining : withoutFailed repos found = repos.filter (!isFound unavailable ·) :=
    List.filter_congr fun repo hrepo => by rw [hknown repo hrepo]
  have hne : repos ≠ [] := by
    rintro rfl
    simp at h
  refine ⟨found, attempted.output, fun repo hrepo => ?_, ?_⟩
  · obtain ⟨hin, hout⟩ := List.mem_filter.mp hrepo
    rw [hknown repo hin]
    simpa using hout
  · rw [runModFrom, if_neg hne]
    simp only [hrun, hsuccess, Bool.false_eq_true, if_false, hfailure, hanswered, hfind,
      hremaining, dite_eq_ite]

/-- An unavailable name that bisection does not look for. -/
def isStuck (unavailable : String → Bool) (repo : String) : Bool :=
  isDown unavailable repo && !isExtensionRepo (trimStart '@' repo)

theorem not_isFound_of_isStuck {repo : String} (h : isStuck unavailable repo = true) :
    isFound unavailable repo = false := by
  rw [isStuck, Bool.and_eq_true] at h
  rw [isFound, h.1, Bool.true_and]
  simpa using h.2

theorem isDown_iff (repo : String) : isDown unavailable repo = true ↔
    isFound unavailable repo = true ∨ isStuck unavailable repo = true := by
  rw [isFound, isStuck]
  cases isDown unavailable repo <;> cases isExtensionRepo (trimStart '@' repo) <;> simp

/-- An unavailable name that bisection does not find is one it does not look for. -/
theorem any_isStuck {names : List String} (h : names.any (isDown unavailable) = true)
    (hfound : names.filter (!isFound unavailable ·) = names) :
    names.any (isStuck unavailable) = true := by
  obtain ⟨repo, hrepo, hdown⟩ := List.any_eq_true.mp h
  have hnot := List.filter_eq_self.mp hfound repo hrepo
  exact List.any_eq_true.mpr
    ⟨repo, hrepo, ((isDown_iff repo).mp hdown).resolve_left (by simpa using hnot)⟩

theorem any_isStuck_eq_false {names : List String} (h : names.any (isDown unavailable) = false) :
    names.any (isStuck unavailable) = false :=
  List.any_eq_false.mpr fun repo hrepo hbad =>
    List.any_eq_false.mp h repo hrepo ((isDown_iff repo).mpr (Or.inr hbad))

theorem filter_isDown_eq_self {names : List String}
    (h : names.any (isDown unavailable) = false) : names.filter (!isDown unavailable ·) = names :=
  List.filter_eq_self.mpr fun repo hrepo => by simpa using List.any_eq_false.mp h repo hrepo

/-- Among names bisection finds nothing of, an unavailable one is the end of it. -/
theorem runModFrom_stuck (hmapping : MapsAvailable mapping unavailable)
    (hattempt : AnswersAvailable attempt unavailable answer) (budget : Nat) (subcommand : String)
    {repos : List String} {failed : FailedExtensions}
    (hasked : ∀ repo ∈ repos, hasUnavailableMapping repo failed = false)
    (hfound : repos.filter (!isFound unavailable ·) = repos)
    (h : repos.any (isDown unavailable) = true) :
    ∃ output, (runModFrom mapping budget subcommand attempt repos failed).1 =
      modFailure subcommand output := by
  obtain ⟨found, output, -, hrun⟩ :=
    runModFrom_unavailable hmapping hattempt budget subcommand hasked h
  rw [hfound, if_pos rfl] at hrun
  exact ⟨output, by rw [hrun]⟩

/-- Names that have been asked for end in an answer for the available ones, or in the failure of
an unavailable one that is no extension repository. -/
theorem runModFrom_ends (hmapping : MapsAvailable mapping unavailable)
    (hattempt : AnswersAvailable attempt unavailable answer) (budget : Nat) (subcommand : String)
    {repos : List String} {failed : FailedExtensions}
    (hasked : ∀ repo ∈ repos, hasUnavailableMapping repo failed = false) :
    repos.any (isStuck unavailable) = true ∧
        (∃ output, (runModFrom mapping budget subcommand attempt repos failed).1 =
          modFailure subcommand output) ∨
      repos.any (isStuck unavailable) = false ∧
        (runModFrom mapping budget subcommand attempt repos failed).1 =
          .ok (if repos.filter (!isDown unavailable ·) = [] then none
            else some (answer (repos.filter (!isDown unavailable ·)))) := by
  cases hdown : repos.any (isDown unavailable) with
  | false =>
      refine Or.inr ⟨any_isStuck_eq_false hdown, ?_⟩
      rw [filter_isDown_eq_self hdown, runModFrom_available hattempt budget subcommand hdown]
  | true =>
      obtain ⟨found, output, hclean, hrun⟩ :=
        runModFrom_unavailable hmapping hattempt budget subcommand hasked hdown
      have hin : ∀ repo ∈ repos, isStuck unavailable repo = true →
          repo ∈ repos.filter (!isFound unavailable ·) := fun repo hrepo hbad =>
        List.mem_filter.mpr ⟨hrepo, by simp [not_isFound_of_isStuck hbad]⟩
      by_cases hlength : (repos.filter (!isFound unavailable ·)).length = repos.length
      · rw [if_pos hlength] at hrun
        have hself := List.filter_eq_self.mpr (List.length_filter_eq_length_iff.mp hlength)
        exact Or.inl ⟨any_isStuck hdown hself, output, by rw [hrun]⟩
      · rw [if_neg hlength] at hrun
        rw [hrun]
        cases hleft : (repos.filter (!isFound unavailable ·)).any (isDown unavailable) with
        | false =>
            have hnone := any_isStuck_eq_false hleft
            have hsame : repos.filter (!isDown unavailable ·) =
                repos.filter (!isFound unavailable ·) := by
              rw [← filter_isDown_eq_self hleft, List.filter_filter]
              apply List.filter_congr
              intro repo _
              rw [isFound]
              cases isDown unavailable repo <;> simp
            refine Or.inr ⟨?_, by
              rw [hsame, runModFrom_available hattempt budget subcommand hleft]⟩
            apply List.any_eq_false.mpr
            intro repo hrepo hbad
            exact List.any_eq_false.mp hnone repo (hin repo hrepo hbad) hbad
        | true =>
            have hself : (repos.filter (!isFound unavailable ·)).filter
                (!isFound unavailable ·) = repos.filter (!isFound unavailable ·) :=
              List.filter_eq_self.mpr fun repo hrepo => (List.mem_filter.mp hrepo).2
            obtain ⟨repo, hrepo, hbad⟩ := List.any_eq_true.mp (any_isStuck hleft hself)
            refine Or.inl ⟨List.any_eq_true.mpr ⟨repo, (List.mem_filter.mp hrepo).1, hbad⟩, ?_⟩
            exact runModFrom_stuck hmapping hattempt budget subcommand hclean hself hleft

/-- Names recorded by mistake apart, the names that are asked for and available are the available
ones. -/
theorem withoutFailed_available {repos : List String} {failed : FailedExtensions}
    (h : ∀ name ∈ failed.unavailable, unavailable name = true) :
    (withoutFailed repos failed).filter (!isDown unavailable ·) =
      repos.filter (!isDown unavailable ·) := by
  rw [withoutFailed, List.filter_filter]
  apply List.filter_congr
  intro repo _
  cases hdown : isDown unavailable repo with
  | true => simp
  | false =>
      have hnot : trimStart '@' repo ∉ failed.unavailable := fun hmem =>
        Bool.false_ne_true (hdown.symm.trans (h _ hmem))
      have hcontains : hasUnavailableMapping repo failed = false := by
        rw [← Bool.not_eq_true, hasUnavailableMapping, Std.ExtTreeSet.contains_iff_mem]
        exact hnot
      simp [hcontains]

/-- **Bisection finds exactly the unavailable extension repositories, and what is asked for ends
in an answer for the available names in order, in nothing when none is left, or in the failure of
an unavailable name that is no extension repository. Names the failure state already has are not
asked for.** -/
theorem bisection_exact (hmapping : MapsAvailable mapping unavailable)
    (hattempt : AnswersAvailable attempt unavailable answer) (budget : Nat) (subcommand : String)
    (repos : List String) (failed : FailedExtensions) :
    (∃ found, findUnavailableRepositories mapping budget repos failed = (.ok (), found) ∧
      ∀ name, name ∈ found.unavailable ↔ name ∈ failed.unavailable ∨
        name ∈ repos.map (trimStart '@') ∧ isExtensionRepo name = true ∧
          unavailable name = true) ∧
    ((withoutFailed repos failed).any (isStuck unavailable) = true ∧
        (∃ output, (runModOverRepos mapping budget subcommand attempt repos failed).1 =
          modFailure subcommand output) ∨
      (withoutFailed repos failed).any (isStuck unavailable) = false ∧
        (runModOverRepos mapping budget subcommand attempt repos failed).1 =
          .ok (if (withoutFailed repos failed).filter (!isDown unavailable ·) = [] then none
            else some (answer ((withoutFailed repos failed).filter
              (!isDown unavailable ·))))) ∧
    ((∀ name ∈ failed.unavailable, unavailable name = true) →
      (withoutFailed repos failed).filter (!isDown unavailable ·) =
        repos.filter (!isDown unavailable ·)) := by
  refine ⟨findUnavailableRepositories_finds hmapping budget repos failed, ?_,
    withoutFailed_available⟩
  apply runModFrom_ends hmapping hattempt budget subcommand
  intro repo hrepo
  simpa using (List.mem_filter.mp hrepo).2

end Bisection

/-- What Bazel says when an extension of `rules` cannot be evaluated. -/
def brokenExtension : ModOutput where
  success := false
  status := "exit status: 2"
  stderr := "ERROR: module extension @@rules+//:ext.bzl%deps failed"

/-- A Bazel that cannot evaluate one extension with one repository. -/
def mapBroken (names : List String) : Result ModOutput :=
  .ok (if names.any (· == "rules++deps+a") then brokenExtension else { success := true })

def echoBroken (names : List String) : Result (Attempt (List String)) :=
  .ok { output := if names.any (isDown (· == "rules++deps+a")) then brokenExtension
          else { success := true }
        value := names }

theorem unanswered_brokenExtension : Unanswered brokenExtension := by
  have hfailure : (extensionFailure brokenExtension.stderr).map (·.answered) = some false := by
    decide +kernel
  obtain ⟨failure, hsome, hanswered⟩ := Option.map_eq_some_iff.mp hfailure
  exact ⟨rfl, failure, hsome, hanswered⟩

theorem mapsAvailable_mapBroken : MapsAvailable mapBroken (· == "rules++deps+a") where
  fails names h := ⟨brokenExtension, by rw [mapBroken, if_pos h], unanswered_brokenExtension⟩
  succeeds names _ h := ⟨{ success := true }, by rw [mapBroken, h]; rfl, rfl⟩

theorem answersAvailable_echoBroken :
    AnswersAvailable echoBroken (· == "rules++deps+a") id where
  fails names h := ⟨{ output := brokenExtension, value := names }, by rw [echoBroken, if_pos h],
    unanswered_brokenExtension⟩
  answers names _ h := ⟨{ output := { success := true }, value := names },
    by rw [echoBroken, h]; rfl, rfl, Or.inl rfl⟩

/-- The broken repository is left out of three. -/
theorem bisection_exact_mapBroken :
    (runModOverRepos mapBroken 4096 "show_repo" echoBroken
      ["@@rules+", "@@rules++deps+a", "@@rules++deps+b"] {}).1 =
        .ok (some ["@@rules+", "@@rules++deps+b"]) := by
  obtain ⟨-, ⟨hstuck, -⟩ | ⟨-, hrun⟩, -⟩ := bisection_exact mapsAvailable_mapBroken
    answersAvailable_echoBroken 4096 "show_repo"
    ["@@rules+", "@@rules++deps+a", "@@rules++deps+b"] {}
  · exact absurd hstuck (by decide +kernel)
  · rw [hrun]
    decide +kernel

/-- An available repository that the failure state already names is not answered for. -/
theorem recorded_name_left_out :
    ¬ ((runModOverRepos mapBroken 4096 "show_repo" echoBroken ["@@rules+", "@@rules++deps+b"]
          { unavailable := (∅ : StringSet).insert "rules++deps+b" }).1 =
        .ok (some (["@@rules+", "@@rules++deps+b"].filter
          (!isDown (· == "rules++deps+a") ·))) ∨
      ["@@rules+", "@@rules++deps+b"].filter (!isDown (· == "rules++deps+a") ·) = [] ∨
      ["@@rules+", "@@rules++deps+b"].any (isStuck (· == "rules++deps+a")) = true) := by
  have hasked : withoutFailed ["@@rules+", "@@rules++deps+b"]
      { unavailable := (∅ : StringSet).insert "rules++deps+b" } = ["@@rules+"] := by
    decide +kernel
  have hrun : (runModOverRepos mapBroken 4096 "show_repo" echoBroken ["@@rules+", "@@rules++deps+b"]
      { unavailable := (∅ : StringSet).insert "rules++deps+b" }).1 = .ok (some ["@@rules+"]) := by
    rw [runModOverRepos, hasked, runModFrom]
    decide +kernel
  rw [hrun]
  decide +kernel

end BazelDiff
