/-
# What Bazel says about repository mappings

Bazel has one thing to say about the mapping of each repository: it gives the mapping, the
extension behind the repository cannot be evaluated, or it refuses for another reason. What comes
of an invocation for several names and of splitting it is told by that alone.
-/

import BazelDiff.Query.ExtensionRepositories

namespace BazelDiff

open Text

/-! ## What Bazel knows -/

inductive MappingStatus
  | answers (mapping : RepoMapping)
  /-- The extension behind the repository cannot be evaluated. -/
  | unavailable
  /-- Bazel fails for another reason, like a name it does not know. -/
  | refused

def MappingStatus.isUnavailable : MappingStatus → Bool
  | .unavailable => true
  | _ => false

/-- The repositories there are, and what Bazel has to say about their mappings. -/
structure RepositoryWorld where
  repositories : String → Prop
  status : String → MappingStatus
  /-- Markers in front of a name make no difference. -/
  plain : ∀ name, status (trimStart '@' name) = status name
  /-- Only repositories of extensions are unavailable. -/
  extension : ∀ name, status name = .unavailable → isExtensionRepo name = true
  named : ∀ {name mapping} {apparent canonical : String}, status name = .answers mapping →
    mapping[apparent]? = some canonical → repositories canonical
  /-- A repository of an extension sees its siblings. -/
  siblings : ∀ {name mapping}, status name = .answers mapping → isExtensionRepo name = true →
    ∀ {sibling}, repositories sibling → usageOf sibling = usageOf name →
      ∃ apparent : String, mapping[apparent]? = some sibling

namespace RepositoryWorld

variable (world : RepositoryWorld)

def mappingOf (name : String) : Option RepoMapping :=
  match world.status name with
  | .answers mapping => some mapping
  | _ => none

/-- The names that are not unavailable. -/
def live (names : List String) : List String :=
  names.filter fun name => !(world.status name).isUnavailable

/-- One of some names is refused. -/
def Refuses (names : List String) : Prop :=
  ∃ name ∈ names, world.status name = .refused

/-- Nothing was recorded by mistake. -/
def Trusts (failed : FailedExtensions) : Prop :=
  ∀ name ∈ failed.unavailable, world.status name = .unavailable

variable {world}

theorem mappingOf_eq_some {name : String} {mapping : RepoMapping} :
    world.mappingOf name = some mapping ↔ world.status name = .answers mapping := by
  rw [mappingOf]
  cases world.status name <;> simp

theorem isSome_iff {name : String} : (world.mappingOf name).isSome = true ↔
    world.status name ≠ .unavailable ∧ world.status name ≠ .refused := by
  rw [mappingOf]
  cases world.status name <;> simp

theorem isUnavailable_iff {name : String} :
    (world.status name).isUnavailable = true ↔ world.status name = .unavailable := by
  cases world.status name <;> simp [MappingStatus.isUnavailable]

theorem mem_live {names : List String} {name : String} :
    name ∈ world.live names ↔ name ∈ names ∧ world.status name ≠ .unavailable := by
  rw [live, List.mem_filter, ne_eq, ← isUnavailable_iff]
  simp

theorem refuses_live {names : List String} :
    world.Refuses (world.live names) ↔ world.Refuses names := by
  constructor
  · rintro ⟨name, hname, hrefused⟩
    exact ⟨name, (mem_live.mp hname).1, hrefused⟩
  · rintro ⟨name, hname, hrefused⟩
    exact ⟨name, mem_live.mpr ⟨hname, by simp [hrefused]⟩, hrefused⟩

/-- Unavailable names have no mapping. -/
theorem filterMap_live (names : List String) :
    (world.live names).filterMap world.mappingOf = names.filterMap world.mappingOf := by
  rw [live, List.filterMap_filter]
  apply List.filterMap_congr
  intro name _
  rw [mappingOf]
  cases world.status name <;> rfl

theorem live_eq_self_iff {names : List String} (h : ¬ world.Refuses names) :
    world.live names = names ↔ names.all (fun name => (world.mappingOf name).isSome) = true := by
  rw [live, List.filter_eq_self, List.all_eq_true]
  refine forall₂_congr fun name hname => ?_
  rw [isSome_iff, Bool.not_eq_true', ← Bool.not_eq_true, isUnavailable_iff]
  exact ⟨fun hup => ⟨hup, fun hrefused => h ⟨name, hname, hrefused⟩⟩, And.left⟩

/-- Recording a name makes every spelling of it known. -/
theorem status_of_recorded {failed : FailedExtensions} (h : world.Trusts failed) {name : String}
    (hname : hasUnavailableMapping name failed = true) : world.status name = .unavailable := by
  rw [hasUnavailableMapping, Std.ExtTreeSet.contains_iff_mem] at hname
  rw [← world.plain name]
  exact h _ hname

theorem not_recorded {failed : FailedExtensions} (h : world.Trusts failed) {name : String}
    (hname : world.status name ≠ .unavailable) : hasUnavailableMapping name failed = false := by
  rw [← Bool.not_eq_true]
  exact fun hrecorded => hname (status_of_recorded h hrecorded)

end RepositoryWorld

open RepositoryWorld

/-- Bazel fails an invocation for the worst of its names, and otherwise prints their mappings in
order. -/
structure MappingCommands.Describes (commands : MappingCommands) (world : RepositoryWorld) :
    Prop where
  unavailable : ∀ names, (∃ name ∈ names, world.status name = .unavailable) →
    ∃ attempted, commands.dumpRepoMapping names = .ok attempted ∧ Unanswered attempted.output
  refused : ∀ names, (∀ name ∈ names, world.status name ≠ .unavailable) → world.Refuses names →
    ∃ attempted, commands.dumpRepoMapping names = .ok attempted ∧
      attempted.output.success = false ∧ extensionFailure attempted.output.stderr = none
  answers : ∀ names, names ≠ [] → (∀ name ∈ names, (world.mappingOf name).isSome = true) →
    ∃ attempted, commands.dumpRepoMapping names = .ok attempted ∧
      attempted.output.success = true ∧
      commands.readMappings attempted.value = names.map world.mappingOf

/-! ## What is recorded -/

/-- Only unavailable names are recorded on the way, and all of them unless it goes wrong. -/
structure Finds {α : Type} (world : RepositoryWorld) (names : List String)
    (failed : FailedExtensions) (outcome : Result α × FailedExtensions) : Prop where
  kept : ∀ name ∈ failed.unavailable, name ∈ outcome.2.unavailable
  sound : ∀ name ∈ outcome.2.unavailable, name ∈ failed.unavailable ∨
    ∃ asked ∈ names, world.status asked = .unavailable ∧ trimStart '@' asked = name
  complete : (∃ value, outcome.1 = .ok value) → ∀ asked ∈ names,
    world.status asked = .unavailable → trimStart '@' asked ∈ outcome.2.unavailable

namespace Finds

variable {α β : Type} {world : RepositoryWorld} {names more : List String}
  {failed : FailedExtensions}

theorem trusts {outcome : Result α × FailedExtensions} (h : Finds world names failed outcome)
    (hfailed : world.Trusts failed) : world.Trusts outcome.2 := by
  intro name hname
  rcases h.sound name hname with hold | ⟨asked, -, hdown, rfl⟩
  · exact hfailed name hold
  · rw [world.plain, hdown]

/-- Nothing is recorded when no name is unavailable. -/
theorem refl (hnames : ∀ name ∈ names, world.status name ≠ .unavailable) (result : Result α) :
    Finds world names failed (result, failed) where
  kept _ h := h
  sound _ h := Or.inl h
  complete _ asked hasked hdown := absurd hdown (hnames asked hasked)

/-- One unavailable name is recorded. -/
theorem recorded {name : String} (hname : world.status name = .unavailable)
    (hplain : trimStart '@' name = name) (observed : Bool) (extensions : StringSet) :
    Finds world [name] failed (.ok (),
      { observed, extensions, unavailable := failed.unavailable.insert name }) where
  kept _ h := Std.ExtTreeSet.mem_insert.mpr (Or.inr h)
  sound other hother := by
    rcases Std.ExtTreeSet.mem_insert.mp hother with hself | hold
    · rw [Std.LawfulEqCmp.compare_eq_iff_eq] at hself
      exact Or.inr ⟨name, List.mem_singleton_self _, hname, hplain.trans hself⟩
    · exact Or.inl hold
  complete _ asked hasked _ := by
    rw [List.mem_singleton.mp hasked, hplain]
    exact Std.ExtTreeSet.mem_insert_self

/-- What goes wrong may record a part. -/
theorem error {found : FailedExtensions} (failure : Failure)
    (hkept : ∀ name ∈ failed.unavailable, name ∈ found.unavailable)
    (hsound : ∀ name ∈ found.unavailable, name ∈ failed.unavailable ∨
      ∃ asked ∈ names, world.status asked = .unavailable ∧ trimStart '@' asked = name) :
    Finds (α := α) world names failed (.error failure, found) where
  kept := hkept
  sound := hsound
  complete := by
    rintro ⟨value, hvalue⟩
    cases hvalue

/-- More names go wrong with the first. -/
theorem error_append {found : FailedExtensions} {failure failure' : Failure}
    (h : Finds (α := α) world names failed (.error failure, found)) (more : List String) :
    Finds (α := β) world (names ++ more) failed (.error failure', found) := by
  refine error failure' h.kept fun name hname => ?_
  refine (h.sound name hname).imp_right ?_
  rintro ⟨asked, hasked, hdown⟩
  exact ⟨asked, List.mem_append_left _ hasked, hdown⟩

/-- One run after another. -/
theorem trans {value : α} {found : FailedExtensions} {outcome : Result β × FailedExtensions}
    (h : Finds world names failed (.ok value, found)) (h' : Finds world more found outcome) :
    Finds world (names ++ more) failed outcome where
  kept name hname := h'.kept name (h.kept name hname)
  sound name hname := by
    rcases h'.sound name hname with hfound | ⟨asked, hasked, hdown⟩
    · refine (h.sound name hfound).imp_right ?_
      rintro ⟨asked, hasked, hdown⟩
      exact ⟨asked, List.mem_append_left _ hasked, hdown⟩
    · exact Or.inr ⟨asked, List.mem_append_right _ hasked, hdown⟩
  complete hvalue asked hasked hdown := by
    rcases List.mem_append.mp hasked with hasked | hasked
    · exact h'.kept _ (h.complete ⟨value, rfl⟩ asked hasked hdown)
    · exact h'.complete hvalue asked hasked hdown

/-- The same names once more, whatever came of them before. -/
theorem again {first : Result α × FailedExtensions} {outcome : Result β × FailedExtensions}
    (h : Finds world names failed first) (h' : Finds world names first.2 outcome) :
    Finds world names failed outcome where
  kept name hname := h'.kept name (h.kept name hname)
  sound name hname := by
    rcases h'.sound name hname with hold | hdown
    · exact h.sound name hold
    · exact Or.inr hdown
  complete := h'.complete

/-- Only the names that are unavailable matter. -/
theorem congr {outcome : Result α × FailedExtensions} (h : Finds world names failed outcome)
    (hnames : ∀ asked, world.status asked = .unavailable →
      (asked ∈ names ↔ asked ∈ more)) : Finds world more failed outcome where
  kept := h.kept
  sound name hname := by
    refine (h.sound name hname).imp_right ?_
    rintro ⟨asked, hasked, hdown, hsame⟩
    exact ⟨asked, (hnames asked hdown).mp hasked, hdown, hsame⟩
  complete hvalue asked hasked hdown :=
    h.complete hvalue asked ((hnames asked hdown).mpr hasked) hdown

/-- Another value, or none for none. -/
theorem of_result {result : Result α} {result' : Result β} {found : FailedExtensions}
    (h : Finds world names failed (result, found))
    (hvalue : (∃ value, result' = .ok value) → ∃ value, result = .ok value) :
    Finds world names failed (result', found) where
  kept := h.kept
  sound := h.sound
  complete hok := h.complete (hvalue hok)

/-- Names that are recorded already need not be looked at. -/
theorem of_withoutFailed {outcome : Result α × FailedExtensions}
    (h : Finds world (withoutFailed names failed) failed outcome) :
    Finds world names failed outcome where
  kept := h.kept
  sound name hname := by
    refine (h.sound name hname).imp_right ?_
    rintro ⟨asked, hasked, hdown⟩
    exact ⟨asked, (List.mem_filter.mp hasked).1, hdown⟩
  complete hvalue asked hasked hdown := by
    cases hknown : hasUnavailableMapping asked failed with
    | true =>
        rw [hasUnavailableMapping, Std.ExtTreeSet.contains_iff_mem] at hknown
        exact h.kept _ hknown
    | false =>
        refine h.complete hvalue asked (List.mem_filter.mpr ⟨hasked, ?_⟩) hdown
        rw [hknown, Bool.not_false]

/-- When all went well, the names that are left are those that are not unavailable. -/
theorem withoutFailed_eq {value : α} {found : FailedExtensions}
    (h : Finds world names failed (.ok value, found)) (hfailed : world.Trusts failed) :
    withoutFailed names found = world.live names := by
  apply List.filter_congr
  intro name hname
  cases hstatus : (world.status name).isUnavailable with
  | true =>
      have hrecorded := h.complete ⟨value, rfl⟩ name hname (isUnavailable_iff.mp hstatus)
      rw [hasUnavailableMapping, Std.ExtTreeSet.contains_iff_mem.mpr hrecorded]
  | false =>
      rw [not_recorded (h.trusts hfailed)]
      rw [ne_eq, ← isUnavailable_iff, hstatus]
      exact Bool.false_ne_true

end Finds

/-- What was recorded before stays left out. -/
theorem withoutFailed_twice {failed found : FailedExtensions} {names : List String}
    (hkept : ∀ name ∈ failed.unavailable, name ∈ found.unavailable) :
    withoutFailed (withoutFailed names failed) found = withoutFailed names found := by
  rw [withoutFailed, withoutFailed, withoutFailed, List.filter_filter]
  apply List.filter_congr
  intro name _
  cases hknown : hasUnavailableMapping name failed with
  | false => simp
  | true =>
      rw [hasUnavailableMapping, Std.ExtTreeSet.contains_iff_mem] at hknown
      simp [hasUnavailableMapping, Std.ExtTreeSet.contains_iff_mem.mpr (hkept _ hknown)]

/-- When none of the names that are left is unavailable, they are all that are not. -/
theorem withoutFailed_live {world : RepositoryWorld} {failed : FailedExtensions}
    (hfailed : world.Trusts failed) {names : List String}
    (h : ∀ name ∈ withoutFailed names failed, world.status name ≠ .unavailable) :
    withoutFailed names failed = world.live names :=
  (Finds.of_withoutFailed (Finds.refl h (.ok ()))).withoutFailed_eq hfailed

section Runs

variable {commands : MappingCommands} {world : RepositoryWorld}

/-! ## Bisection -/

/-- An invocation for some names ends in one of three ways. -/
theorem MappingCommands.Describes.mapping_cases (h : commands.Describes world)
    {names : List String} (hne : names ≠ []) :
    ((∃ name ∈ names, world.status name = .unavailable) ∧
        ∃ output failure, commands.mapping names = .ok output ∧ output.success = false ∧
          (extensionFailure output.stderr).filter (fun failure => !failure.answered) =
            some failure) ∨
      ((∀ name ∈ names, world.status name ≠ .unavailable) ∧ world.Refuses names ∧
        ∃ output, commands.mapping names = .ok output ∧ output.success = false ∧
          extensionFailure output.stderr = none) ∨
      ((∀ name ∈ names, (world.mappingOf name).isSome = true) ∧
        ∃ output, commands.mapping names = .ok output ∧ output.success = true) := by
  by_cases hdown : ∃ name ∈ names, world.status name = .unavailable
  · obtain ⟨attempted, hrun, hsuccess, failure, hfailure, hanswered⟩ := h.unavailable names hdown
    refine Or.inl ⟨hdown, attempted.output, failure, ?_, hsuccess, ?_⟩
    · rw [MappingCommands.mapping, hrun]
      rfl
    · rw [hfailure, Option.filter_some, hanswered]
      rfl
  · have hup : ∀ name ∈ names, world.status name ≠ .unavailable := fun name hname hstatus =>
      hdown ⟨name, hname, hstatus⟩
    by_cases hrefused : world.Refuses names
    · obtain ⟨attempted, hrun, hsuccess, hfailure⟩ := h.refused names hup hrefused
      refine Or.inr (Or.inl ⟨hup, hrefused, attempted.output, ?_, hsuccess, hfailure⟩)
      rw [MappingCommands.mapping, hrun]
      rfl
    · have hanswers : ∀ name ∈ names, (world.mappingOf name).isSome = true := fun name hname =>
        isSome_iff.mpr ⟨hup name hname, fun hstatus => hrefused ⟨name, hname, hstatus⟩⟩
      obtain ⟨attempted, hrun, hsuccess, -⟩ := h.answers names hne hanswers
      refine Or.inr (Or.inr ⟨hanswers, attempted.output, ?_, hsuccess⟩)
      rw [MappingCommands.mapping, hrun]
      rfl

/-- Splitting batches records the unavailable names on the stack, and goes wrong only over one that
is refused. -/
theorem findUnavailableFrom_world (h : commands.Describes world) (pending : List Batch)
    (failed : FailedExtensions)
    (hplain : ∀ name ∈ pending.flatMap Batch.names, trimStart '@' name = name) :
    Finds world (pending.flatMap Batch.names) failed
        (findUnavailableFrom commands.mapping pending failed) ∧
      (¬ world.Refuses (pending.flatMap Batch.names) →
        (findUnavailableFrom commands.mapping pending failed).1 = .ok ()) := by
  induction hweight : (pending.map Batch.weight).sum using Nat.strong_induction_on
    generalizing pending failed with
  | h n ih =>
      subst hweight
      cases pending with
      | nil =>
          rw [findUnavailableFrom]
          exact ⟨Finds.refl (by simp) _, fun _ => rfl⟩
      | cons batch pending =>
          have hpos := batch.weight_pos
          have hpop : (pending.map Batch.weight).sum <
              ((batch :: pending).map Batch.weight).sum := by
            rw [List.map_cons, List.sum_cons]
            omega
          rw [List.flatMap_cons] at hplain ⊢
          have hrest : ∀ name ∈ pending.flatMap Batch.names, trimStart '@' name = name :=
            fun name hname => hplain name (List.mem_append_right _ hname)
          rcases h.mapping_cases batch.nonempty with
            ⟨hdown, output, failure, hrun, hsuccess, hfailure⟩ |
            ⟨hup, hrefused, output, hrun, hsuccess, hfailure⟩ | ⟨hanswers, output, hrun, hsuccess⟩
          · rw [findUnavailableFrom]
            simp only [hrun, hsuccess, Bool.false_eq_true, if_false, hfailure]
            by_cases hlength : 2 ≤ batch.names.length
            · have hhalves := batch.weight_halves hlength
              have hsame : (batch.left hlength :: batch.right hlength :: pending).flatMap
                  Batch.names = batch.names ++ pending.flatMap Batch.names := by
                rw [List.flatMap_cons, List.flatMap_cons, ← List.append_assoc,
                  batch.left_append_right hlength]
              rw [dif_pos hlength, ← hsame]
              refine ih _ ?_ _ failed (hsame ▸ hplain) rfl
              simp only [List.map_cons, List.sum_cons]
              omega
            · rw [dif_neg hlength]
              obtain ⟨name, hname⟩ : ∃ name, batch.names = [name] := by
                refine List.length_eq_one_iff.mp ?_
                have := List.length_pos_iff.mpr batch.nonempty
                omega
              have hhead : batch.names.head batch.nonempty = name := by simp [hname]
              obtain ⟨found, hok⟩ := ih _ hpop pending
                { noteFailedExtensions failed failure.extensions with
                  unavailable := failed.unavailable.insert name } hrest rfl
              have hstatus : world.status name = .unavailable := by
                simpa [hname] using hdown
              have hself : trimStart '@' name = name := hplain name (by simp [hname])
              have hrecorded : Finds world [name] failed (.ok (),
                  { noteFailedExtensions failed failure.extensions with
                    unavailable := failed.unavailable.insert name }) :=
                Finds.recorded hstatus hself _ _
              rw [hhead, hname]
              refine ⟨hrecorded.trans found, fun hnone => hok fun hrefused => hnone ?_⟩
              obtain ⟨other, hother, hr⟩ := hrefused
              exact ⟨other, List.mem_cons_of_mem _ hother, hr⟩
          · rw [findUnavailableFrom]
            simp only [hrun, hsuccess, Bool.false_eq_true, if_false, hfailure, Option.filter_none]
            refine ⟨Finds.error _ (fun _ h => h) (fun _ h => Or.inl h), fun hnone => ?_⟩
            obtain ⟨name, hname, hstatus⟩ := hrefused
            exact absurd ⟨name, List.mem_append_left _ hname, hstatus⟩ hnone
          · rw [findUnavailableFrom]
            simp only [hrun, hsuccess, if_true]
            obtain ⟨found, hok⟩ := ih _ hpop pending failed hrest rfl
            have hclean : Finds world batch.names failed (.ok (), failed) :=
              Finds.refl (fun name hname => (isSome_iff.mp (hanswers name hname)).1) _
            refine ⟨hclean.trans found, fun hnone => hok fun hrefused => hnone ?_⟩
            obtain ⟨name, hname, hstatus⟩ := hrefused
            exact ⟨name, List.mem_append_right _ hname, hstatus⟩

theorem findUnavailableRepositories_world (h : commands.Describes world) (budget : Nat)
    (repos : List String) (failed : FailedExtensions) :
    Finds world repos failed
        (findUnavailableRepositories commands.mapping budget repos failed) ∧
      (¬ world.Refuses repos →
        (findUnavailableRepositories commands.mapping budget repos failed).1 = .ok ()) := by
  rw [findUnavailableRepositories]
  have hmem : ∀ name, name ∈ (batchesOf ((repos.map (trimStart '@')).filter fun repo =>
      isExtensionRepo repo && !failed.unavailable.contains repo) budget).flatMap Batch.names ↔
      (∃ asked ∈ repos, trimStart '@' asked = name) ∧ isExtensionRepo name = true ∧
        name ∉ failed.unavailable := by
    intro name
    rw [flatMap_batchesOf, List.mem_filter, List.mem_map]
    simp [← Std.ExtTreeSet.contains_iff_mem]
  obtain ⟨found, hok⟩ := findUnavailableFrom_world h (batchesOf _ budget) failed (by
    intro name hname
    obtain ⟨⟨asked, -, rfl⟩, -⟩ := (hmem name).mp hname
    exact trimStart_trimStart _ _)
  refine ⟨⟨found.kept, fun name hname => ?_, fun hvalue asked hasked hdown => ?_⟩,
    fun hnone => hok fun hrefused => hnone ?_⟩
  · refine (found.sound name hname).imp_right ?_
    rintro ⟨looked, hlooked, hdown, rfl⟩
    obtain ⟨⟨asked, hasked, rfl⟩, -⟩ := (hmem looked).mp hlooked
    rw [world.plain] at hdown
    exact ⟨asked, hasked, hdown, (trimStart_trimStart _ _).symm⟩
  · by_cases hknown : trimStart '@' asked ∈ failed.unavailable
    · exact found.kept _ hknown
    · rw [← world.plain] at hdown
      rw [← trimStart_trimStart]
      exact found.complete hvalue _ ((hmem _).mpr ⟨⟨asked, hasked, rfl⟩,
        world.extension _ hdown, hknown⟩) hdown
  · obtain ⟨looked, hlooked, hstatus⟩ := hrefused
    obtain ⟨⟨asked, hasked, rfl⟩, -⟩ := (hmem looked).mp hlooked
    rw [world.plain] at hstatus
    exact ⟨asked, hasked, hstatus⟩

/-! ## One chunk -/

/-- An answer for the names of a chunk that are left is read in order. -/
theorem chunkMappings_some {chunk names : List String} {stdout : List UInt8}
    (hread : commands.readMappings stdout = names.map world.mappingOf)
    (hnames : ∀ name ∈ names, (world.mappingOf name).isSome = true) :
    commands.chunkMappings chunk (some { stdout, complete := decide (names = chunk) }) =
      (names.filterMap world.mappingOf, decide (names = chunk)) := by
  have hall : (names.map world.mappingOf).all (·.isSome) = true := by
    simpa [List.all_eq_true] using hnames
  have hmappings : (names.map world.mappingOf).filterMap id = names.filterMap world.mappingOf := by
    rw [List.filterMap_map, Function.id_comp]
  have hlength : (names.filterMap world.mappingOf).length = names.length :=
    List.filterMap_length_eq_length.mpr hnames
  rw [MappingCommands.chunkMappings]
  simp only [hread, hall, hmappings, hlength, Bool.and_true]
  by_cases hsame : names = chunk
  · simp [hsame]
  · simp [hsame]

/-- Names none of which is unavailable are answered for at once, or refused. -/
theorem runModFrom_live (h : commands.Describes world) (budget : Nat) {chunk : List String}
    (hchunk : chunk ≠ []) (names : List String)
    (hnames : ∀ name ∈ names, world.status name ≠ .unavailable)
    (failed : FailedExtensions) :
    (world.Refuses names → ∃ failure, runModFrom commands.mapping budget "dump_repo_mapping"
        (commands.attemptChunk chunk) names failed = (.error failure, failed)) ∧
      (¬ world.Refuses names → ∃ answer, runModFrom commands.mapping budget "dump_repo_mapping"
          (commands.attemptChunk chunk) names failed = (.ok answer, failed) ∧
        commands.chunkMappings chunk answer =
          (names.filterMap world.mappingOf, decide (names = chunk))) := by
  rw [runModFrom]
  by_cases hnil : names = []
  · subst hnil
    refine ⟨?_, fun _ => ⟨none, if_pos rfl, ?_⟩⟩
    · rintro ⟨name, hname, -⟩
      exact absurd hname List.not_mem_nil
    · simp [MappingCommands.chunkMappings, hchunk.symm]
  · rw [if_neg hnil]
    constructor
    · intro hrefused
      obtain ⟨attempted, hrun, hsuccess, hfailure⟩ := h.refused names hnames hrefused
      simp only [MappingCommands.attemptChunk, hrun, Except.map, hsuccess, Bool.false_eq_true,
        if_false, hfailure]
      exact ⟨_, rfl⟩
    · intro hnone
      have hanswers : ∀ name ∈ names, (world.mappingOf name).isSome = true := fun name hname =>
        isSome_iff.mpr ⟨hnames name hname, fun hrefused => hnone ⟨name, hname, hrefused⟩⟩
      obtain ⟨attempted, hrun, hsuccess, hread⟩ := h.answers names hnil hanswers
      simp only [MappingCommands.attemptChunk, hrun, Except.map, hsuccess, if_true, Bool.true_and]
      exact ⟨_, rfl, chunkMappings_some hread hanswers⟩

/-- Nothing more is recorded about names none of which is unavailable. -/
theorem runModFrom_live_result (h : commands.Describes world) (budget : Nat)
    {chunk : List String} (hchunk : chunk ≠ []) (names : List String)
    (failed : FailedExtensions) :
    ∃ result, runModFrom commands.mapping budget "dump_repo_mapping"
      (commands.attemptChunk chunk) (world.live names) failed = (result, failed) := by
  obtain ⟨hrefused, hanswered⟩ := runModFrom_live h budget hchunk (world.live names)
    (fun name hname => (mem_live.mp hname).2) failed
  by_cases hsome : world.Refuses (world.live names)
  · obtain ⟨failure, hrun⟩ := hrefused hsome
    exact ⟨_, hrun⟩
  · obtain ⟨answer, hrun, -⟩ := hanswered hsome
    exact ⟨_, hrun⟩

/-- A chunk is answered for when it can be, without its unavailable names. -/
theorem runModOverRepos_world (h : commands.Describes world) (budget : Nat) {chunk : List String}
    (hchunk : chunk ≠ []) {failed : FailedExtensions} (hfailed : world.Trusts failed) :
    let outcome := runModOverRepos commands.mapping budget "dump_repo_mapping"
      (commands.attemptChunk chunk) chunk failed
    Finds world chunk failed outcome ∧
      (world.Refuses chunk → ∃ failure, outcome.1 = .error failure) ∧
      (¬ world.Refuses chunk → ∃ answer, outcome.1 = .ok answer ∧
        commands.chunkMappings chunk answer = (chunk.filterMap world.mappingOf,
          chunk.all fun name => (world.mappingOf name).isSome)) := by
  intro outcome
  have hflag : ¬ world.Refuses chunk → decide (world.live chunk = chunk) =
      chunk.all fun name => (world.mappingOf name).isSome := fun hnone => by
    rw [Bool.eq_iff_iff, decide_eq_true_iff, live_eq_self_iff hnone]
  have hlive : ∀ {found result}, outcome = (result, found) →
      runModFrom commands.mapping budget "dump_repo_mapping" (commands.attemptChunk chunk)
        (world.live chunk) found = (result, found) →
      (world.Refuses chunk → ∃ failure, outcome.1 = .error failure) ∧
      (¬ world.Refuses chunk → ∃ answer, outcome.1 = .ok answer ∧
        commands.chunkMappings chunk answer = (chunk.filterMap world.mappingOf,
          chunk.all fun name => (world.mappingOf name).isSome)) := by
    intro found result houtcome hrun
    obtain ⟨hrefused, hanswered⟩ := runModFrom_live h budget hchunk (world.live chunk)
      (fun name hname => (mem_live.mp hname).2) found
    rw [houtcome]
    constructor
    · intro hsome
      obtain ⟨failure, hfailure⟩ := hrefused (refuses_live.mpr hsome)
      rw [hfailure] at hrun
      exact ⟨failure, (congrArg Prod.fst hrun).symm⟩
    · intro hnone
      obtain ⟨answer, hanswer, hmappings⟩ := hanswered (refuses_live.not.mpr hnone)
      rw [hanswer] at hrun
      refine ⟨answer, (congrArg Prod.fst hrun).symm, ?_⟩
      rw [hmappings, filterMap_live, hflag hnone]
  by_cases hdown : ∃ name ∈ withoutFailed chunk failed, world.status name = .unavailable
  · obtain ⟨attempted, hrun, hsuccess, failure, hfailure, hanswered⟩ := h.unavailable _ hdown
    have hnonempty : withoutFailed chunk failed ≠ [] := by
      obtain ⟨name, hname, -⟩ := hdown
      exact List.ne_nil_of_mem hname
    obtain ⟨hfinds, hok⟩ := findUnavailableRepositories_world h budget
      (withoutFailed chunk failed) (noteFailedExtensions failed failure.extensions)
    have hstart : outcome = runModFrom commands.mapping budget "dump_repo_mapping"
      (commands.attemptChunk chunk) (withoutFailed chunk failed) failed := rfl
    rw [runModFrom, if_neg hnonempty] at hstart
    simp only [MappingCommands.attemptChunk, hrun, Except.map, hsuccess, Bool.false_eq_true,
      if_false, hfailure, hanswered] at hstart
    rcases hfound : findUnavailableRepositories commands.mapping budget
      (withoutFailed chunk failed) (noteFailedExtensions failed failure.extensions) with
      ⟨wrong | done, found⟩
    · rw [hfound] at hfinds hok hstart
      have hchunkFinds : Finds (α := Unit) world chunk failed (.error wrong, found) :=
        Finds.of_withoutFailed ⟨hfinds.kept, hfinds.sound, hfinds.complete⟩
      refine ⟨hstart ▸ hchunkFinds.of_result ?_, fun _ => ⟨wrong, congrArg Prod.fst hstart⟩,
        fun hnone => ?_⟩
      · rintro ⟨value, hvalue⟩
        cases hvalue
      · have hnot : ¬ world.Refuses (withoutFailed chunk failed) := by
          rintro ⟨name, hname, hrefused⟩
          exact hnone ⟨name, (List.mem_filter.mp hname).1, hrefused⟩
        cases hok hnot
    · rw [hfound] at hfinds hstart
      have hchunkFinds : Finds (α := Unit) world chunk failed (.ok done, found) :=
        Finds.of_withoutFailed ⟨hfinds.kept, hfinds.sound, hfinds.complete⟩
      have hremaining : withoutFailed (withoutFailed chunk failed) found = world.live chunk := by
        rw [withoutFailed_twice hchunkFinds.kept]
        exact hchunkFinds.withoutFailed_eq hfailed
      have hshorter : (withoutFailed (withoutFailed chunk failed) found).length ≠
          (withoutFailed chunk failed).length := by
        intro hlength
        obtain ⟨name, hname, hstatus⟩ := hdown
        have hself := List.filter_eq_self.mp
          (List.filter_sublist.eq_of_length hlength) name hname
        have hrecorded := hfinds.complete ⟨done, rfl⟩ name hname hstatus
        rw [← Std.ExtTreeSet.contains_iff_mem] at hrecorded
        simp [hasUnavailableMapping, hrecorded] at hself
      dsimp only at hstart
      rw [dif_neg hshorter, hremaining] at hstart
      obtain ⟨result, hresult⟩ := runModFrom_live_result h budget hchunk chunk found
      rw [hresult] at hstart
      refine ⟨hstart ▸ hchunkFinds.of_result fun _ => ⟨done, rfl⟩, hlive hstart hresult⟩
  · have hsame : withoutFailed chunk failed = world.live chunk := by
      apply withoutFailed_live hfailed
      exact fun name hname hstatus => hdown ⟨name, hname, hstatus⟩
    obtain ⟨result, hresult⟩ := runModFrom_live_result h budget hchunk chunk failed
    have hstart : outcome = (result, failed) := by
      show runModFrom _ _ _ _ (withoutFailed chunk failed) failed = _
      rw [hsame, hresult]
    refine ⟨?_, hlive hstart hresult⟩
    rw [hstart]
    apply Finds.of_withoutFailed
    apply Finds.refl
    exact fun name hname hstatus => hdown ⟨name, hname, hstatus⟩
/-! ## Any names -/

/-- Some names are read: their mappings in order, without those of unavailable names, and whether
none is missing. -/
structure Reads (world : RepositoryWorld) (names : List String) (failed : FailedExtensions)
    (outcome : Result (List RepoMapping × Bool) × FailedExtensions) : Prop
    extends Finds world names failed outcome where
  refused : world.Refuses names → ∃ failure, outcome.1 = .error failure
  answered : ¬ world.Refuses names → outcome.1 = .ok (names.filterMap world.mappingOf,
    names.all fun name => (world.mappingOf name).isSome)

/-- Chunk after chunk, the names are read as they would be at once. -/
theorem dumpChunks_world (h : commands.Describes world) (chunks : List (List String))
    (hchunks : ∀ chunk ∈ chunks, chunk ≠ []) {failed : FailedExtensions}
    (hfailed : world.Trusts failed) :
    Reads world chunks.flatten failed (commands.dumpChunks chunks failed) := by
  induction chunks generalizing failed with
  | nil =>
      refine ⟨Finds.refl (by simp) _, ?_, fun _ => rfl⟩
      rintro ⟨name, hname, -⟩
      exact absurd hname List.not_mem_nil
  | cons chunk chunks ih =>
      obtain ⟨hfinds, hrefused, hanswered⟩ := runModOverRepos_world h commands.argumentBudget
        (hchunks chunk List.mem_cons_self) hfailed
      have hrest := fun {found} (hfound : world.Trusts found) =>
        ih (fun other hother => hchunks other (List.mem_cons_of_mem _ hother)) hfound
      rw [List.flatten_cons]
      rw [MappingCommands.dumpChunks]
      rcases hrun : runModOverRepos commands.mapping commands.argumentBudget "dump_repo_mapping"
        (commands.attemptChunk chunk) chunk failed with ⟨failure | answer, found⟩
      · rw [hrun] at hfinds hanswered
        refine ⟨hfinds.error_append _, fun _ => ⟨failure, rfl⟩, fun hnone => ?_⟩
        have hnot : ¬ world.Refuses chunk := by
          rintro ⟨name, hname, hstatus⟩
          exact hnone ⟨name, List.mem_append_left _ hname, hstatus⟩
        obtain ⟨answer, hanswer, -⟩ := hanswered hnot
        cases hanswer
      · rw [hrun] at hfinds hrefused hanswered
        have hnot : ¬ world.Refuses chunk := by
          intro hsome
          obtain ⟨failure, hfailure⟩ := hrefused hsome
          cases hfailure
        obtain ⟨_, ⟨⟩, hmappings⟩ := hanswered hnot
        have hmore := hrest (hfinds.trusts hfailed)
        have hrefuses : world.Refuses (chunk ++ chunks.flatten) ↔
            world.Refuses chunks.flatten := by
          constructor
          · rintro ⟨name, hname, hstatus⟩
            rcases List.mem_append.mp hname with hname | hname
            · exact absurd ⟨name, hname, hstatus⟩ hnot
            · exact ⟨name, hname, hstatus⟩
          · rintro ⟨name, hname, hstatus⟩
            exact ⟨name, List.mem_append_right _ hname, hstatus⟩
        dsimp only at hmore ⊢
        rcases hdump : commands.dumpChunks chunks found with ⟨failure | more, last⟩
        · rw [hdump] at hmore
          refine ⟨hfinds.trans (hmore.toFinds.of_result ?_), fun _ => ⟨failure, rfl⟩,
            fun hnone => ?_⟩
          · exact fun hok => hok
          · cases hmore.answered (hrefuses.not.mp hnone)
        · rw [hdump] at hmore
          refine ⟨hfinds.trans (hmore.toFinds.of_result fun _ => ⟨more, rfl⟩), fun hsome => ?_,
            fun hnone => ?_⟩
          · obtain ⟨failure, hfailure⟩ := hmore.refused (hrefuses.mp hsome)
            cases hfailure
          · cases hmore.answered (hrefuses.not.mp hnone)
            dsimp only
            rw [hmappings, List.filterMap_append, List.all_append]

theorem dumpRepoMappings_world (h : commands.Describes world) (repos : List String)
    {failed : FailedExtensions} (hfailed : world.Trusts failed) :
    Reads world repos failed (commands.dumpRepoMappings repos failed) := by
  have hreads := dumpChunks_world h (chunkArguments repos commands.argumentBudget)
    (fun _ hchunk => ne_nil_of_mem_chunkFrom hchunk) hfailed
  rw [chunkArguments_flatten] at hreads
  exact hreads

end Runs

end BazelDiff
