/-
# Every repository of every imported extension

The modules are asked for at once, without the hidden ones when that goes wrong, and so are the
representatives, and one by one when that goes wrong. When nothing is missing, the repositories
enumerated are all there are of the extensions some module imports from.
-/

import BazelDiff.Query.MappingAnswers

namespace BazelDiff

open Text

open RepositoryWorld

section Runs

variable {commands : MappingCommands} {world : RepositoryWorld}

/-! ## Modules -/

/-- What was read before is what Bazel would say. -/
def Prefetched (world : RepositoryWorld) (prefetched : StringMap RepoMapping) : Prop :=
  ∀ (name : String) (mapping : RepoMapping), prefetched[name]? = some mapping →
    world.mappingOf name = some mapping

/-- The names left to ask for are all that can be refused or unavailable, and with answers for
them nothing is missing. -/
theorem takePrefetched_world (repos : List String) {prefetched : StringMap RepoMapping}
    (hprefetched : Prefetched world prefetched) :
    (∀ name ∈ (takePrefetched repos prefetched).2, name ∈ repos) ∧
      (∀ name ∈ repos, name ∉ (takePrefetched repos prefetched).2 →
        (world.mappingOf name).isSome = true) ∧
      ((∀ name ∈ repos, (world.mappingOf name).isSome = true) →
        fillAnswers (takePrefetched repos prefetched).1
          ((takePrefetched repos prefetched).2.filterMap world.mappingOf) =
            .ok (repos.filterMap world.mappingOf)) := by
  induction repos generalizing prefetched with
  | nil => exact ⟨by simp [takePrefetched], by simp, fun _ => rfl⟩
  | cons repo repos ih =>
      have herased : Prefetched world (prefetched.erase repo) := by
        intro name mapping hname
        rw [Std.ExtTreeMap.getElem?_erase] at hname
        split at hname
        · cases hname
        · exact hprefetched name mapping hname
      obtain ⟨hin, hout, hfill⟩ := ih herased
      cases htaken : prefetched[repo]? with
      | some mapping =>
          have hrepo := hprefetched repo mapping htaken
          simp only [takePrefetched, htaken]
          refine ⟨fun name hname => List.mem_cons_of_mem _ (hin name hname), ?_, fun hall => ?_⟩
          · intro name hname hnot
            rcases List.mem_cons.mp hname with rfl | hname
            · rw [hrepo]
              rfl
            · exact hout name hname hnot
          · rw [fillAnswers, hfill fun name hname => hall name (List.mem_cons_of_mem _ hname),
              List.filterMap_cons, hrepo]
            rfl
      | none =>
          simp only [takePrefetched, htaken]
          refine ⟨fun name hname => ?_, ?_, fun hall => ?_⟩
          · rcases List.mem_cons.mp hname with rfl | hname
            · exact List.mem_cons_self
            · exact List.mem_cons_of_mem _ (hin name hname)
          · intro name hname hnot
            rcases List.mem_cons.mp hname with rfl | hname
            · exact absurd List.mem_cons_self hnot
            · exact hout name hname fun hmem => hnot (List.mem_cons_of_mem _ hmem)
          · obtain ⟨mapping, hrepo⟩ := Option.isSome_iff_exists.mp (hall repo List.mem_cons_self)
            rw [List.filterMap_cons, hrepo, fillAnswers,
              hfill fun name hname => hall name (List.mem_cons_of_mem _ hname),
              List.filterMap_cons, hrepo]
            rfl

/-- What was read before makes no difference. -/
theorem moduleMappings_world (h : commands.Describes world) (repos : List String)
    {prefetched : StringMap RepoMapping} (hprefetched : Prefetched world prefetched)
    {failed : FailedExtensions} (hfailed : world.Trusts failed) :
    Reads world repos failed (moduleMappings commands repos prefetched failed) := by
  rw [moduleMappings]
  split
  · exact dumpRepoMappings_world h repos hfailed
  · obtain ⟨hin, hout, hfill⟩ := takePrefetched_world repos hprefetched
    have hmissing := dumpRepoMappings_world h (takePrefetched repos prefetched).2 hfailed
    have hsame : ∀ asked, world.status asked = .unavailable →
        (asked ∈ (takePrefetched repos prefetched).2 ↔ asked ∈ repos) := by
      intro asked hdown
      refine ⟨hin asked, fun hasked => ?_⟩
      by_contra hnot
      exact (isSome_iff.mp (hout asked hasked hnot)).1 hdown
    have hrefuses : world.Refuses (takePrefetched repos prefetched).2 ↔ world.Refuses repos := by
      constructor
      · rintro ⟨name, hname, hstatus⟩
        exact ⟨name, hin name hname, hstatus⟩
      · rintro ⟨name, hname, hstatus⟩
        refine ⟨name, ?_, hstatus⟩
        by_contra hnot
        exact (isSome_iff.mp (hout name hname hnot)).2 hstatus
    have hfinds := hmissing.toFinds.congr hsame
    dsimp only
    rcases hdump : commands.dumpRepoMappings (takePrefetched repos prefetched).2 failed with
      ⟨failure | ⟨answers, completeMissing⟩, found⟩
    · rw [hdump] at hmissing hfinds
      refine ⟨hfinds, fun _ => ⟨failure, rfl⟩, fun hnone => ?_⟩
      cases hmissing.answered (hrefuses.not.mpr hnone)
    · rw [hdump] at hmissing hfinds
      have hnot : ¬ world.Refuses (takePrefetched repos prefetched).2 := by
        intro hsome
        obtain ⟨failure, hfailure⟩ := hmissing.refused hsome
        cases hfailure
      have hvalue := hmissing.answered hnot
      simp only [Except.ok.injEq, Prod.mk.injEq] at hvalue
      obtain ⟨rfl, hflag⟩ := hvalue
      dsimp only
      cases completeMissing with
      | false =>
          rw [Bool.not_false, if_pos rfl]
          have hagain := dumpRepoMappings_world h repos (hfinds.trusts hfailed)
          exact ⟨hfinds.again hagain.toFinds, hagain.refused, hagain.answered⟩
      | true =>
          have hall : ∀ name ∈ repos, (world.mappingOf name).isSome = true := by
            intro name hname
            by_cases hasked : name ∈ (takePrefetched repos prefetched).2
            · exact List.all_eq_true.mp hflag.symm name hasked
            · exact hout name hname hasked
          rw [Bool.not_true, if_neg Bool.false_ne_true, hfill hall]
          refine ⟨hfinds.of_result fun _ => ⟨_, rfl⟩, fun hsome => ?_, fun _ => ?_⟩
          · exact absurd (hrefuses.mpr hsome) hnot
          · rw [List.all_eq_true.mpr hall]
            rfl

/-- The modules that are read: the hidden ones only when none of them is refused. -/
def IsRead (world : RepositoryWorld) (visible hidden : List String) (module : String) : Prop :=
  module ∈ visible ∨ module ∈ hidden ∧ ¬ world.Refuses hidden

/-- Nothing is recorded about modules. -/
theorem Finds.same_of_modules {α : Type} {names : List String} {failed : FailedExtensions}
    {outcome : Result α × FailedExtensions} (h : Finds world names failed outcome)
    (hnames : ∀ name ∈ names, isExtensionRepo name = false) (name : String) :
    name ∈ outcome.2.unavailable ↔ name ∈ failed.unavailable := by
  refine ⟨fun hname => ?_, h.kept name⟩
  rcases h.sound name hname with hold | ⟨asked, hasked, hdown, -⟩
  · exact hold
  · have hextension := world.extension asked hdown
    rw [hnames asked hasked] at hextension
    cases hextension

theorem refuses_append (names more : List String) :
    world.Refuses (names ++ more) ↔ world.Refuses names ∨ world.Refuses more := by
  simp only [RepositoryWorld.Refuses, List.mem_append, or_and_right, exists_or]

/-- The modules are read unless one the root names is refused; a hidden one that is refused takes
the others with it. -/
theorem surveyModules_world (h : commands.Describes world) {visible hidden : List String}
    (hmodules : ∀ name ∈ visible ++ hidden, isExtensionRepo name = false)
    {prefetched : StringMap RepoMapping} (hprefetched : Prefetched world prefetched)
    {failed : FailedExtensions} (hfailed : world.Trusts failed) :
    let outcome := surveyModules commands visible hidden prefetched failed
    (∀ name, name ∈ outcome.2.unavailable ↔ name ∈ failed.unavailable) ∧
      (world.Refuses visible → ∃ failure, outcome.1 = .error failure) ∧
      (¬ world.Refuses visible → ∃ mappings, outcome.1 = .ok (mappings,
          (visible ++ hidden).all fun name => (world.mappingOf name).isSome) ∧
        (∀ mapping, mapping ∈ mappings ↔ ∃ module, IsRead world visible hidden module ∧
          world.mappingOf module = some mapping) ∧
        (((visible ++ hidden).all fun name => (world.mappingOf name).isSome) = true →
          mappings = (visible ++ hidden).filterMap world.mappingOf)) := by
  intro outcome
  have houtcome : outcome = surveyModules commands visible hidden prefetched failed := rfl
  rw [surveyModules] at houtcome
  by_cases hnil : visible ++ hidden = []
  · obtain ⟨rfl, rfl⟩ := List.append_eq_nil_iff.mp hnil
    rw [if_pos hnil] at houtcome
    rw [houtcome]
    refine ⟨fun _ => Iff.rfl, ?_, fun _ => ⟨[], rfl, ?_, fun _ => rfl⟩⟩
    · rintro ⟨name, hname, -⟩
      exact absurd hname List.not_mem_nil
    · simp [IsRead]
  · rw [if_neg hnil] at houtcome
    have hreads := moduleMappings_world h (visible ++ hidden) hprefetched hfailed
    have hsame := hreads.toFinds.same_of_modules hmodules
    rcases hrun : moduleMappings commands (visible ++ hidden) prefetched failed with
      ⟨failure | ⟨mappings, complete⟩, found⟩
    · rw [hrun] at hreads hsame houtcome
      have hsome : world.Refuses visible ∨ world.Refuses hidden := by
        rw [← refuses_append]
        by_contra hnone
        cases hreads.answered hnone
      dsimp only at houtcome
      by_cases hhidden : hidden = []
      · rw [if_pos hhidden] at houtcome
        rw [houtcome]
        refine ⟨hsame, fun _ => ⟨failure, rfl⟩, fun hnone => ?_⟩
        obtain ⟨name, hname, -⟩ := hsome.resolve_left hnone
        rw [hhidden] at hname
        exact absurd hname List.not_mem_nil
      · rw [if_neg hhidden] at houtcome
        have hagain := dumpRepoMappings_world h visible (hreads.toFinds.trusts hfailed)
        have hstill := hagain.toFinds.same_of_modules fun name hname =>
          hmodules name (List.mem_append_left _ hname)
        dsimp only at hagain hstill
        rcases hdump : commands.dumpRepoMappings visible found with
          ⟨failure | ⟨mappings, complete⟩, last⟩
        · rw [hdump] at hagain hstill houtcome
          rw [houtcome]
          refine ⟨fun name => (hstill name).trans (hsame name), fun _ => ⟨failure, rfl⟩,
            fun hnone => ?_⟩
          cases hagain.answered hnone
        · rw [hdump] at hagain hstill houtcome
          rw [houtcome]
          refine ⟨fun name => (hstill name).trans (hsame name), fun hrefused => ?_, fun hnone => ?_⟩
          · obtain ⟨failure, hfailure⟩ := hagain.refused hrefused
            cases hfailure
          · have hbad := hsome.resolve_left hnone
            have hincomplete : ((visible ++ hidden).all fun name =>
                (world.mappingOf name).isSome) = false := by
              obtain ⟨name, hname, hstatus⟩ := hbad
              rw [← Bool.not_eq_true, List.all_eq_true]
              intro hall
              exact (isSome_iff.mp (hall name (List.mem_append_right _ hname))).2 hstatus
            have hvalue := hagain.answered hnone
            simp only [Except.ok.injEq, Prod.mk.injEq] at hvalue
            refine ⟨mappings, by rw [hincomplete], fun mapping => ?_, fun hall => ?_⟩
            · rw [hvalue.1]
              simp [List.mem_filterMap, IsRead, hbad]
            · rw [hincomplete] at hall
              cases hall
    · rw [hrun] at hreads hsame houtcome
      have hnone : ¬ world.Refuses (visible ++ hidden) := by
        intro hsome
        obtain ⟨failure, hfailure⟩ := hreads.refused hsome
        cases hfailure
      have hvalue := hreads.answered hnone
      simp only [Except.ok.injEq, Prod.mk.injEq] at hvalue
      obtain ⟨rfl, rfl⟩ := hvalue
      rw [refuses_append, not_or] at hnone
      rw [houtcome]
      refine ⟨hsame, fun hrefused => absurd hrefused hnone.1, fun _ => ⟨_, ?_, ?_, fun _ => rfl⟩⟩
      · have hlength : (((visible ++ hidden).all fun name => (world.mappingOf name).isSome) &&
            decide (((visible ++ hidden).filterMap world.mappingOf).length =
              (visible ++ hidden).length)) =
            (visible ++ hidden).all fun name => (world.mappingOf name).isSome := by
          rw [Bool.and_eq_left_iff_imp, List.all_eq_true, decide_eq_true_iff]
          exact List.filterMap_length_eq_length.mpr
        dsimp only
        rw [hlength]
      · intro mapping
        simp [List.mem_filterMap, IsRead, hnone.2, or_and_right, exists_or]

/-! ## Representatives -/

/-- Asking one by one passes over what is refused, or ends with it. -/
theorem dumpEach_world (h : commands.Describes world) (keepGoing : Bool) (names : List String)
    {failed : FailedExtensions} (hfailed : world.Trusts failed) :
    let outcome := dumpEach commands keepGoing names failed
    Finds world names failed outcome ∧
      (world.Refuses names → keepGoing = false → ∃ failure, outcome.1 = .error failure) ∧
      (¬ world.Refuses names ∨ keepGoing = true →
        outcome.1 = .ok (names.filterMap world.mappingOf)) := by
  induction names generalizing failed with
  | nil =>
      refine ⟨Finds.refl (by simp) _, ?_, fun _ => rfl⟩
      rintro ⟨name, hname, -⟩
      exact absurd hname List.not_mem_nil
  | cons name names ih =>
      intro outcome
      have houtcome : outcome = dumpEach commands keepGoing (name :: names) failed := rfl
      rw [dumpEach] at houtcome
      have hreads := dumpRepoMappings_world h [name] hfailed
      have hrefuses : world.Refuses (name :: names) ↔
          world.Refuses [name] ∨ world.Refuses names := refuses_append [name] names
      rcases hrun : commands.dumpRepoMappings [name] failed with ⟨failure | ⟨mappings, _⟩, found⟩
      · rw [hrun] at hreads houtcome
        have hbad : world.Refuses [name] := by
          by_contra hnone
          cases hreads.answered hnone
        dsimp only at houtcome
        cases keepGoing with
        | false =>
            rw [if_neg Bool.false_ne_true] at houtcome
            rw [houtcome]
            exact ⟨hreads.toFinds.error_append names, fun _ _ => ⟨failure, rfl⟩,
              fun hok => (hok.resolve_right Bool.false_ne_true (hrefuses.mpr (Or.inl hbad))).elim⟩
        | true =>
            rw [if_pos rfl] at houtcome
            obtain ⟨hfinds, -, hanswered⟩ := ih (hreads.toFinds.trusts hfailed)
            obtain ⟨_, hmem, hstatus⟩ := hbad
            cases List.mem_singleton.mp hmem
            have hclean : Finds (α := Unit) world [name] failed (.ok (), found) := by
              refine ⟨hreads.kept, hreads.sound, fun _ asked hasked hdown => ?_⟩
              rw [List.mem_singleton.mp hasked, hstatus] at hdown
              cases hdown
            rw [houtcome]
            refine ⟨hclean.trans hfinds, ?_, fun _ => ?_⟩
            · intro _ hstop
              cases hstop
            · have hnothing : world.mappingOf name = none := by rw [mappingOf, hstatus]
              rw [hanswered (Or.inr rfl), List.filterMap_cons, hnothing]
      · rw [hrun] at hreads houtcome
        have hgood : ¬ world.Refuses [name] := by
          intro hsome
          obtain ⟨failure, hfailure⟩ := hreads.refused hsome
          cases hfailure
        have hvalue := hreads.answered hgood
        simp only [Except.ok.injEq, Prod.mk.injEq] at hvalue
        obtain ⟨hfinds, hrefused, hanswered⟩ := ih (hreads.toFinds.trusts hfailed)
        dsimp only at houtcome hfinds hrefused hanswered
        rw [hrefuses]
        rcases heach : dumpEach commands keepGoing names found with ⟨failure | more, last⟩
        · rw [heach] at hfinds hrefused hanswered houtcome
          rw [houtcome]
          refine ⟨hreads.toFinds.trans (hfinds.of_result fun hok => hok),
            fun _ _ => ⟨failure, rfl⟩, fun hok => ?_⟩
          cases hanswered (hok.imp_left fun hnone hsome => hnone (Or.inr hsome))
        · rw [heach] at hfinds hrefused hanswered houtcome
          rw [houtcome]
          refine ⟨hreads.toFinds.trans (hfinds.of_result fun _ => ⟨more, rfl⟩),
            fun hsome hstop => ?_, fun hok => ?_⟩
          · obtain ⟨failure, hfailure⟩ := hrefused (hsome.resolve_left hgood) hstop
            cases hfailure
          · cases hanswered (hok.imp_left fun hnone hsome => hnone (Or.inr hsome))
            dsimp only
            rw [hvalue.1, ← List.filterMap_append, List.singleton_append]

theorem surveySpokes_world (h : commands.Describes world) (keepGoing : Bool) (names : List String)
    {failed : FailedExtensions} (hfailed : world.Trusts failed) :
    let outcome := surveySpokes commands keepGoing names failed
    Finds world names failed outcome ∧
      (world.Refuses names → keepGoing = false → ∃ failure, outcome.1 = .error failure) ∧
      (¬ world.Refuses names ∨ keepGoing = true →
        outcome.1 = .ok (names.filterMap world.mappingOf,
          names.all fun name => (world.mappingOf name).isSome)) := by
  intro outcome
  have houtcome : outcome = surveySpokes commands keepGoing names failed := rfl
  rw [surveySpokes] at houtcome
  by_cases hnil : names = []
  · subst hnil
    rw [if_pos rfl] at houtcome
    rw [houtcome]
    refine ⟨Finds.refl (by simp) _, ?_, fun _ => rfl⟩
    rintro ⟨name, hname, -⟩
    exact absurd hname List.not_mem_nil
  · rw [if_neg hnil] at houtcome
    have hreads := dumpRepoMappings_world h names hfailed
    rcases hrun : commands.dumpRepoMappings names failed with ⟨failure | answered, found⟩
    · rw [hrun] at hreads houtcome
      have hbad : world.Refuses names := by
        by_contra hnone
        cases hreads.answered hnone
      obtain ⟨hfinds, hrefused, hanswered⟩ := dumpEach_world h keepGoing names
        (hreads.toFinds.trusts hfailed)
      have hagain := hreads.toFinds.again hfinds
      dsimp only at houtcome hagain hrefused hanswered
      rcases heach : dumpEach commands keepGoing names found with ⟨failure | mappings, last⟩
      · rw [heach] at hagain hanswered houtcome
        rw [houtcome]
        refine ⟨hagain.of_result fun hok => ?_, fun _ _ => ⟨failure, rfl⟩, fun hok => ?_⟩
        · obtain ⟨value, hvalue⟩ := hok
          cases hvalue
        · cases hanswered hok
      · rw [heach] at hagain hrefused hanswered houtcome
        rw [houtcome]
        refine ⟨hagain.of_result fun _ => ⟨mappings, rfl⟩, fun hsome hstop => ?_, fun hok => ?_⟩
        · obtain ⟨failure, hfailure⟩ := hrefused hsome hstop
          cases hfailure
        · have hincomplete : (names.all fun name => (world.mappingOf name).isSome) = false := by
            obtain ⟨name, hname, hstatus⟩ := hbad
            rw [← Bool.not_eq_true, List.all_eq_true]
            intro hall
            exact (isSome_iff.mp (hall name hname)).2 hstatus
          cases hanswered hok
          rw [hincomplete]
    · rw [hrun] at hreads houtcome
      rw [houtcome]
      have hnone : ¬ world.Refuses names := by
        intro hsome
        obtain ⟨failure, hfailure⟩ := hreads.refused hsome
        cases hfailure
      exact ⟨hreads.toFinds, fun hsome => absurd hsome hnone, fun _ => hreads.answered hnone⟩

/-- The representative of a usage: the first of its imported repositories. -/
def Represents (imports : String → Prop) (canonical : String) : Prop :=
  imports canonical ∧ ∀ other, imports other → usageOf other = usageOf canonical →
    (compare canonical other).isLE = true

theorem exists_usageOf {canonical : String} (h : isExtensionRepo canonical = true) :
    ∃ usage, usageOf canonical = some usage := by
  rw [isExtensionRepo, decide_eq_true_iff] at h
  have hmem : '+' ∈ canonical.toList := List.count_pos_iff.mp (by omega)
  obtain ⟨parts, hparts⟩ := Option.ne_none_iff_exists'.mp (cutLast_ne_none hmem)
  rw [usageOf, rsplitOnce, hparts]
  exact ⟨_, rfl⟩

theorem getElem?_foldl_represent (repositories : List String) (representatives : StringMap String)
    (usage : String) :
    (repositories.foldl represent representatives)[usage]? =
      (representatives[usage]?).or (repositories.find? (usageOf · = some usage)) := by
  induction repositories generalizing representatives with
  | nil => simp
  | cons first rest ih =>
      rw [List.foldl_cons, ih, List.find?_cons, represent]
      cases husage : usageOf first with
      | none => simp
      | some other =>
          simp only [Std.ExtTreeMap.getElem?_insertIfNew, Std.LawfulEqCmp.compare_eq_iff_eq]
          by_cases hsame : other = usage
          · subst hsame
            rw [decide_eq_true rfl]
            cases hold : representatives[other]? with
            | none =>
                have hnot : other ∉ representatives := by
                  rw [← Std.ExtTreeMap.isSome_getElem?_iff_mem, hold]
                  exact Bool.false_ne_true
                rw [if_pos ⟨rfl, hnot⟩]
                rfl
            | some old =>
                have hin : other ∈ representatives := by
                  rw [← Std.ExtTreeMap.isSome_getElem?_iff_mem, hold]
                  rfl
                rw [if_neg fun h => h.2 hin]
                rfl
          · rw [if_neg fun h => hsame h.1, decide_eq_false fun h => hsame (Option.some.inj h)]

/-- The representatives are the first of their usages. -/
theorem getElem?_representativesOf {imported : StringSet} {usage canonical : String} :
    (representativesOf imported)[usage]? = some canonical ↔
      usageOf canonical = some usage ∧ Represents (· ∈ imported) canonical := by
  have hfirst : ∀ {found}, imported.toList.find? (usageOf · = some usage) = some found →
      usageOf found = some usage ∧ Represents (· ∈ imported) found := by
    intro found hfind
    obtain ⟨hfound, before, after, hsplit, hbefore⟩ := List.find?_eq_some_iff_append.mp hfind
    have husage := of_decide_eq_true hfound
    refine ⟨husage, Std.ExtTreeSet.mem_toList.mp (hsplit ▸ by simp), fun other hother hsame => ?_⟩
    have hordered := Std.ExtTreeSet.ordered_toList (t := imported)
    rw [hsplit, List.pairwise_append] at hordered
    replace hother := Std.ExtTreeSet.mem_toList.mpr hother
    rw [hsplit] at hother
    rcases List.mem_append.mp hother with hother | hother
    · have hnot := hbefore other hother
      rw [hsame, husage] at hnot
      simp at hnot
    · rcases List.mem_cons.mp hother with rfl | hother
      · simp
      · rw [(List.pairwise_cons.mp hordered.2.1).1 other hother]
        rfl
  rw [representativesOf, getElem?_foldl_represent, Std.ExtTreeMap.getElem?_empty, Option.none_or]
  constructor
  · exact hfirst
  · rintro ⟨husage, hmem, hleast⟩
    have hsome : (imported.toList.find? (usageOf · = some usage)).isSome = true := by
      rw [List.find?_isSome]
      exact ⟨canonical, Std.ExtTreeSet.mem_toList.mpr hmem, decide_eq_true husage⟩
    obtain ⟨found, hfound⟩ := Option.isSome_iff_exists.mp hsome
    obtain ⟨hsame, hin, hbefore⟩ := hfirst hfound
    have hle := hleast found hin (hsame.trans husage.symm)
    have hge := hbefore canonical hmem (husage.trans hsame.symm)
    rw [hfound, Std.LawfulEqCmp.compare_eq_iff_eq.mp (Std.OrientedCmp.isLE_antisymm hle hge)]

/-- Every usage has its representative. -/
theorem contains_representativesOf {imported : StringSet} {usage : String} :
    (representativesOf imported).contains usage = true ↔
      ∃ canonical ∈ imported, usageOf canonical = some usage := by
  rw [Std.ExtTreeMap.contains_iff_mem, ← Std.ExtTreeMap.isSome_getElem?_iff_mem,
    representativesOf, getElem?_foldl_represent, Std.ExtTreeMap.getElem?_empty, Option.none_or,
    List.find?_isSome]
  simp [Std.ExtTreeSet.mem_toList]

/-- A name is of a usage with a representative when it shares it with one of the repositories. -/
theorem any_contains_representatives {imported : StringSet}
    (himported : ∀ other ∈ imported, isExtensionRepo other = true) {canonical : String} :
    (usageOf canonical).any (representativesOf imported).contains = true ↔
      ∃ other, other ∈ imported ∧ usageOf canonical = usageOf other := by
  rw [Option.any_eq_true]
  constructor
  · rintro ⟨usage, husage, hcontains⟩
    obtain ⟨other, hother, hsame⟩ := contains_representativesOf.mp hcontains
    exact ⟨other, hother, husage.trans hsame.symm⟩
  · rintro ⟨other, hother, hsame⟩
    obtain ⟨usage, husage⟩ := exists_usageOf (himported other hother)
    exact ⟨usage, hsame.trans husage, contains_representativesOf.mpr ⟨other, hother, husage⟩⟩

theorem mem_mappedNames {mappings : List RepoMapping} {canonical : String} :
    canonical ∈ mappedNames mappings ↔
      ∃ mapping ∈ mappings, ∃ apparent : String, mapping[apparent]? = some canonical := by
  rw [mappedNames, List.mem_flatMap]
  refine exists_congr fun mapping => and_congr_right fun _ => ?_
  rw [List.mem_map]
  constructor
  · rintro ⟨⟨apparent, _⟩, hentry, rfl⟩
    exact ⟨apparent, Std.ExtTreeMap.mem_toList_iff_getElem?_eq_some.mp hentry⟩
  · rintro ⟨apparent, hentry⟩
    exact ⟨(apparent, canonical), Std.ExtTreeMap.mem_toList_iff_getElem?_eq_some.mpr hentry, rfl⟩

theorem mem_importsOf {canonicalToApparent : StringMap (List String)} {mappings : List RepoMapping}
    {canonical : String} : canonical ∈ importsOf canonicalToApparent mappings ↔
      isExtensionRepo canonical = true ∧ (canonical ∈ canonicalToApparent ∨
        ∃ mapping ∈ mappings, ∃ apparent : String, mapping[apparent]? = some canonical) := by
  rw [importsOf, mem_foldl_insert, List.mem_filter, List.mem_append, Std.ExtTreeMap.mem_keys,
    mem_mappedNames, and_comm]
  simp

theorem mem_representatives {imported : StringSet}
    (himported : ∀ other ∈ imported, isExtensionRepo other = true) {canonical : String} :
    canonical ∈ (representativesOf imported).toList.map (·.2) ↔
      Represents (· ∈ imported) canonical := by
  rw [List.mem_map]
  constructor
  · rintro ⟨⟨usage, _⟩, hentry, rfl⟩
    exact (getElem?_representativesOf.mp
      (Std.ExtTreeMap.mem_toList_iff_getElem?_eq_some.mp hentry)).2
  · intro hrepresents
    obtain ⟨usage, husage⟩ := exists_usageOf (himported canonical hrepresents.1)
    exact ⟨(usage, canonical), Std.ExtTreeMap.mem_toList_iff_getElem?_eq_some.mpr
      (getElem?_representativesOf.mpr ⟨husage, hrepresents⟩), rfl⟩

theorem mem_retainMapped {repositories : StringSet} {failed : FailedExtensions}
    {canonical : String} : canonical ∈ retainMapped repositories failed ↔
      canonical ∈ repositories ∧ hasUnavailableMapping canonical failed = false := by
  rw [retainMapped, Std.ExtTreeSet.mem_filter]
  simp

/-- The mappings of the modules, filed under their names. -/
theorem getElem?_foldl_zip {modules : List String} (map : StringMap RepoMapping)
    (hall : ∀ name ∈ modules, (world.mappingOf name).isSome = true) {name : String}
    {mapping : RepoMapping} :
    ((modules.zip (modules.filterMap world.mappingOf)).foldl
        (fun map entry => map.insert entry.1 entry.2) map)[name]? = some mapping ↔
      name ∈ modules ∧ world.mappingOf name = some mapping ∨
        name ∉ modules ∧ map[name]? = some mapping := by
  induction modules generalizing map with
  | nil => simp
  | cons first rest ih =>
      obtain ⟨value, hvalue⟩ := Option.isSome_iff_exists.mp (hall first List.mem_cons_self)
      rw [List.filterMap_cons, hvalue, List.zip_cons_cons, List.foldl_cons,
        ih _ fun name hname => hall name (List.mem_cons_of_mem _ hname)]
      simp only [Std.ExtTreeMap.getElem?_insert, Std.LawfulEqCmp.compare_eq_iff_eq]
      by_cases hsame : first = name
      · subst hsame
        by_cases hin : first ∈ rest <;> simp [hin, hvalue]
      · have hne : name ≠ first := fun h => hsame h.symm
        simp [hsame, hne]

/-- The mappings of the modules are filed when nothing is missing, for the hidden ones. -/
theorem getElem?_filed {modules hidden : List String} {mappings : List RepoMapping}
    {complete : Bool}
    (hall : complete = true → modules.all (fun name => (world.mappingOf name).isSome) = true)
    (hread : modules.all (fun name => (world.mappingOf name).isSome) = true →
      mappings = modules.filterMap world.mappingOf) {name : String} {mapping : RepoMapping} :
    (if complete && !hidden.isEmpty then
        (modules.zip mappings).foldl (fun map entry => map.insert entry.1 entry.2) ∅
      else (∅ : StringMap RepoMapping))[name]? = some mapping ↔
      complete = true ∧ hidden ≠ [] ∧ name ∈ modules ∧ world.mappingOf name = some mapping := by
  by_cases hfiled : (complete && !hidden.isEmpty) = true
  · obtain ⟨hcomplete, hhidden⟩ := Bool.and_eq_true_iff.mp hfiled
    have hne : hidden ≠ [] := by simpa using hhidden
    rw [if_pos hfiled, hread (hall hcomplete),
      getElem?_foldl_zip ∅ (List.all_eq_true.mp (hall hcomplete))]
    simp [hcomplete, hne]
  · rw [if_neg hfiled, Std.ExtTreeMap.getElem?_empty]
    constructor
    · rintro ⟨⟩
    · rintro ⟨hcomplete, hne, -⟩
      exact absurd (by simp [hcomplete, hne]) hfiled

/-! ## The enumeration -/

/-- A repository of an extension that the root or a module that is read imports. -/
def Imports (world : RepositoryWorld) (canonicalToApparent : StringMap (List String))
    (hidden : List String) (canonical : String) : Prop :=
  isExtensionRepo canonical = true ∧ (canonical ∈ canonicalToApparent ∨
    ∃ module, IsRead world (visibleModules canonicalToApparent) hidden module ∧
      ∃ mapping, world.status module = .answers mapping ∧
        ∃ apparent : String, mapping[apparent]? = some canonical)

/-- What an enumeration says of the repositories that are imported, with `modules` for all modules
there are, and whether its inputs were complete. -/
structure Surveys (world : RepositoryWorld) (imports : String → Prop) (modules hidden : List String)
    (completeStart : Bool) (failed : FailedExtensions) (survey : EnumeratedRepositories)
    (found : FailedExtensions) : Prop where
  recorded : ∀ name, name ∈ found.unavailable ↔ name ∈ failed.unavailable ∨
    ∃ canonical, Represents imports canonical ∧ world.status canonical = .unavailable ∧
      trimStart '@' canonical = name
  imported : ∀ canonical, canonical ∈ survey.imported ↔
    imports canonical ∧ hasUnavailableMapping canonical found = false
  generated : ∀ canonical, canonical ∈ survey.generated ↔
    (imports canonical ∨ (∃ other, imports other ∧ usageOf canonical = usageOf other) ∧
      ∃ first mapping, Represents imports first ∧ world.status first = .answers mapping ∧
        ∃ apparent : String, mapping[apparent]? = some canonical) ∧
    hasUnavailableMapping canonical found = false
  complete : survey.completeMappings = true ↔ completeStart = true ∧
    (∀ name ∈ modules, (world.mappingOf name).isSome = true) ∧
    ∀ canonical, Represents imports canonical → (world.mappingOf canonical).isSome = true
  moduleMappings : ∀ (name : String) (mapping : RepoMapping),
    survey.moduleMappings[name]? = some mapping ↔ survey.completeMappings = true ∧ hidden ≠ [] ∧
      name ∈ modules ∧ world.mappingOf name = some mapping

/-- Among some imports one usage has a first repository. -/
theorem exists_represents {imported : StringSet} {imports : String → Prop}
    (himports : ∀ canonical, canonical ∈ imported ↔ imports canonical) {other : String}
    (hother : imports other) (hextension : isExtensionRepo other = true) :
    ∃ first, Represents imports first ∧ usageOf first = usageOf other := by
  obtain ⟨usage, husage⟩ := exists_usageOf hextension
  have hcontains := contains_representativesOf.mpr ⟨other, (himports other).mpr hother, husage⟩
  rw [Std.ExtTreeMap.contains_iff_mem, ← Std.ExtTreeMap.isSome_getElem?_iff_mem] at hcontains
  obtain ⟨first, hfirst⟩ := Option.isSome_iff_exists.mp hcontains
  obtain ⟨hsame, hrepresents⟩ := getElem?_representativesOf.mp hfirst
  refine ⟨first, ?_, hsame.trans husage.symm⟩
  simpa only [Represents, himports] using hrepresents

/-- A complete enumeration has every repository of every extension that is imported. -/
theorem Surveys.exhaustive {imports : String → Prop} {modules hidden : List String}
    {completeStart : Bool} {failed found : FailedExtensions} {survey : EnumeratedRepositories}
    (h : Surveys world imports modules hidden completeStart failed survey found)
    (hexists : ∀ canonical, imports canonical →
      isExtensionRepo canonical = true ∧ world.repositories canonical)
    (hstart : completeStart = true → failed.unavailable = ∅)
    (hcomplete : survey.completeMappings = true) (canonical : String) :
    canonical ∈ survey.generated ↔
      world.repositories canonical ∧
        ∃ other, imports other ∧ usageOf canonical = usageOf other := by
  obtain ⟨hinputs, -, hanswers⟩ := h.complete.mp hcomplete
  have hclean : ∀ name, hasUnavailableMapping name found = false := by
    intro name
    rw [← Bool.not_eq_true, hasUnavailableMapping, Std.ExtTreeSet.contains_iff_mem, h.recorded,
      hstart hinputs]
    rintro (hold | ⟨asked, hasked, hdown, -⟩)
    · exact Std.ExtTreeSet.not_mem_empty hold
    · exact (isSome_iff.mp (hanswers asked hasked)).1 hdown
  have himported : ∀ other, other ∈ survey.imported ↔ imports other := fun other => by
    rw [h.imported, hclean, eq_self, and_true]
  rw [h.generated, hclean, eq_self, and_true]
  constructor
  · rintro (hcanonical | ⟨hused, first, mapping, -, hstatus, apparent, hnamed⟩)
    · exact ⟨(hexists canonical hcanonical).2, canonical, hcanonical, rfl⟩
    · exact ⟨world.named hstatus hnamed, hused⟩
  · rintro ⟨hcanonical, other, hother, hsame⟩
    obtain ⟨first, hfirst, husage⟩ := exists_represents himported hother (hexists other hother).1
    obtain ⟨mapping, hmapping⟩ := Option.isSome_iff_exists.mp (hanswers first hfirst)
    have hstatus := mappingOf_eq_some.mp hmapping
    refine Or.inr ⟨⟨other, hother, hsame⟩, first, mapping, hfirst, hstatus, ?_⟩
    exact world.siblings hstatus (hexists first hfirst.1).1 hcanonical (hsame.trans husage.symm)

section Outcome

variable {canonicalToApparent : StringMap (List String)} {hidden : List String}
  {failed known found : FailedExtensions} {mappings : List RepoMapping} {imports : String → Prop}
  {imported : StringSet}

/-- What is imported, by the mappings of the modules. -/
theorem mem_retained_imports
    (hsame : ∀ name, name ∈ known.unavailable ↔ name ∈ failed.unavailable)
    (hmappings : ∀ mapping, mapping ∈ mappings ↔
      ∃ module, IsRead world (visibleModules canonicalToApparent) hidden module ∧
        world.mappingOf module = some mapping) {canonical : String} :
    canonical ∈ retainMapped (importsOf canonicalToApparent mappings) known ↔
      Imports world canonicalToApparent hidden canonical ∧
        hasUnavailableMapping canonical failed = false := by
  have hknown : hasUnavailableMapping canonical known = hasUnavailableMapping canonical failed := by
    rw [Bool.eq_iff_iff, hasUnavailableMapping, hasUnavailableMapping,
      Std.ExtTreeSet.contains_iff_mem, Std.ExtTreeSet.contains_iff_mem]
    exact hsame _
  rw [mem_retainMapped, hknown, mem_importsOf]
  refine and_congr_left fun _ => and_congr_right fun _ => or_congr_right ?_
  constructor
  · rintro ⟨mapping, hmapping, hnamed⟩
    obtain ⟨module, hmodule, hstatus⟩ := (hmappings mapping).mp hmapping
    exact ⟨module, hmodule, mapping, mappingOf_eq_some.mp hstatus, hnamed⟩
  · rintro ⟨module, hmodule, mapping, hstatus, hnamed⟩
    exact ⟨mapping, (hmappings mapping).mpr ⟨module, hmodule, mappingOf_eq_some.mpr hstatus⟩,
      hnamed⟩

/-- The names that are asked for second are the representatives. -/
theorem mem_spokes (himported : ∀ canonical, canonical ∈ imported ↔ imports canonical)
    (hextension : ∀ canonical, imports canonical → isExtensionRepo canonical = true)
    {canonical : String} :
    canonical ∈ (representativesOf imported).toList.map (·.2) ↔ Represents imports canonical := by
  rw [mem_representatives fun other hother => hextension other ((himported other).mp hother)]
  simp only [Represents, himported]

/-- The repositories that are added are named by a representative and share a usage with some
import. -/
theorem mem_siblings (himported : ∀ canonical, canonical ∈ imported ↔ imports canonical)
    (hextension : ∀ canonical, imports canonical → isExtensionRepo canonical = true)
    {canonical : String} :
    canonical ∈ siblingsOf (representativesOf imported)
        (((representativesOf imported).toList.map (·.2)).filterMap world.mappingOf) ↔
      (∃ other, imports other ∧ usageOf canonical = usageOf other) ∧
        ∃ first mapping, Represents imports first ∧ world.status first = .answers mapping ∧
          ∃ apparent : String, mapping[apparent]? = some canonical := by
  rw [siblingsOf, List.mem_filter, mem_mappedNames, and_comm,
    any_contains_representatives fun other hother => hextension other ((himported other).mp hother)]
  simp only [himported, List.mem_filterMap, mem_spokes himported hextension, mappingOf_eq_some]
  refine and_congr_right fun _ => ?_
  constructor
  · rintro ⟨mapping, ⟨first, hfirst, hstatus⟩, hnamed⟩
    exact ⟨first, mapping, hfirst, hstatus, hnamed⟩
  · rintro ⟨first, mapping, hfirst, hstatus, hnamed⟩
    exact ⟨mapping, ⟨first, hfirst, hstatus⟩, hnamed⟩

/-- What comes of the enumeration when neither the modules nor the representatives make it go
wrong. -/
theorem surveys_of_runs (completeStart : Bool)
    (himported : ∀ canonical, canonical ∈ imported ↔ imports canonical)
    (hextension : ∀ canonical, imports canonical → isExtensionRepo canonical = true)
    (hsame : ∀ name, name ∈ known.unavailable ↔ name ∈ failed.unavailable)
    {modules : List String}
    (hread : modules.all (fun name => (world.mappingOf name).isSome) = true →
      mappings = modules.filterMap world.mappingOf) {α : Type} {value : α}
    (hfinds : Finds world ((representativesOf imported).toList.map (·.2)) known
      (.ok value, found)) :
    let names := (representativesOf imported).toList.map (·.2)
    let complete := completeStart && modules.all (fun name => (world.mappingOf name).isSome) &&
      names.all (fun name => (world.mappingOf name).isSome)
    Surveys world imports modules hidden completeStart failed
      { imported := retainMapped imported found
        generated := retainMapped
          ((siblingsOf (representativesOf imported) (names.filterMap world.mappingOf)).foldl
            (·.insert ·) imported) found
        completeMappings := complete
        moduleMappings :=
          if complete && !hidden.isEmpty then
            (modules.zip mappings).foldl (fun map entry => map.insert entry.1 entry.2) ∅
          else ∅ } found := by
  intro names complete
  exact {
    recorded := by
      intro name
      constructor
      · intro hname
        rcases hfinds.sound name hname with hold | ⟨asked, hasked, hdown⟩
        · exact Or.inl ((hsame name).mp hold)
        · exact Or.inr ⟨asked, (mem_spokes himported hextension).mp hasked, hdown⟩
      · rintro (hold | ⟨asked, hasked, hdown, rfl⟩)
        · exact hfinds.kept name ((hsame name).mpr hold)
        · exact hfinds.complete ⟨_, rfl⟩ asked
            ((mem_spokes himported hextension).mpr hasked) hdown
    imported := by
      intro canonical
      rw [mem_retainMapped, himported]
    generated := by
      intro canonical
      rw [mem_retainMapped, mem_foldl_insert, himported, mem_siblings himported hextension]
    complete := by
      simp only [complete, names, Bool.and_eq_true, List.all_eq_true,
        mem_spokes himported hextension, and_assoc]
    moduleMappings := fun name mapping => getElem?_filed
      (fun hcomplete => (Bool.and_eq_true_iff.mp (Bool.and_eq_true_iff.mp hcomplete).1).2) hread }

end Outcome

/-- Against a Bazel that has one thing to say about each repository, the enumeration goes wrong
only over a module of the root's that is refused, or over a refused representative when it is not
to keep going. Otherwise it finds what the mappings of the modules and of one representative for
every imported extension name, however the names are cut into invocations and whatever was read
before; and when it says that nothing is missing, that is every repository of every extension some
module imports from. -/
theorem extension_repositories_exact (h : commands.Describes world) (keepGoing : Bool)
    {canonicalToApparent : StringMap (List String)}
    (hroot : ∀ canonical ∈ canonicalToApparent, world.repositories canonical)
    {hidden : List String} (hhidden : ∀ name ∈ hidden, isExtensionRepo name = false)
    {prefetched : StringMap RepoMapping} (hprefetched : Prefetched world prefetched)
    (completeInputs : Bool) {failed : FailedExtensions} (hfailed : world.Trusts failed) :
    let imports := fun canonical => Imports world canonicalToApparent hidden canonical ∧
      hasUnavailableMapping canonical failed = false
    let outcome := extensionRepositories commands keepGoing canonicalToApparent hidden prefetched
      completeInputs failed
    ((∃ failure, outcome.1 = .error failure) ↔
        world.Refuses (visibleModules canonicalToApparent) ∨
          keepGoing = false ∧ ∃ canonical, Represents imports canonical ∧
            world.status canonical = .refused) ∧
      ∀ survey, outcome.1 = .ok survey →
        Surveys world imports (visibleModules canonicalToApparent ++ hidden) hidden
          (completeInputs && failed.isEmpty) failed survey outcome.2 ∧
        (survey.completeMappings = true → ∀ canonical, canonical ∈ survey.generated ↔
          world.repositories canonical ∧
            ∃ other, imports other ∧ usageOf canonical = usageOf other) := by
  intro imports outcome
  have hmodules : ∀ name ∈ visibleModules canonicalToApparent ++ hidden,
      isExtensionRepo name = false := by
    intro name hname
    rcases List.mem_append.mp hname with hname | hname
    · simpa using (List.mem_filter.mp hname).2
    · exact hhidden name hname
  obtain ⟨hsame, hrefused, hread⟩ := surveyModules_world h hmodules hprefetched hfailed
  have houtcome : outcome = extensionRepositories commands keepGoing canonicalToApparent hidden
    prefetched completeInputs failed := rfl
  rw [extensionRepositories] at houtcome
  rcases hsurvey : surveyModules commands (visibleModules canonicalToApparent) hidden prefetched
    failed with ⟨result, known⟩
  rw [hsurvey] at hsame hrefused hread houtcome
  by_cases hvisible : world.Refuses (visibleModules canonicalToApparent)
  · obtain ⟨failure, rfl⟩ := hrefused hvisible
    rw [houtcome]
    exact ⟨⟨fun _ => Or.inl hvisible, fun _ => ⟨failure, rfl⟩⟩, fun survey hok => by cases hok⟩
  · obtain ⟨mappings, rfl, hmappings, hmodulesRead⟩ := hread hvisible
    have himports : ∀ canonical,
        canonical ∈ retainMapped (importsOf canonicalToApparent mappings) known ↔
          imports canonical :=
      fun canonical => mem_retained_imports hsame hmappings
    have hextension : ∀ canonical, imports canonical → isExtensionRepo canonical = true :=
      fun canonical hcanonical => hcanonical.1.1
    have htrusts : world.Trusts known := fun name hname => hfailed name ((hsame name).mp hname)
    dsimp only at houtcome
    generalize retainMapped (importsOf canonicalToApparent mappings) known = imported
      at himports houtcome
    obtain ⟨hfinds, hstops, hspokes⟩ := surveySpokes_world h keepGoing
      ((representativesOf imported).toList.map (·.2)) htrusts
    have hrefuses : world.Refuses ((representativesOf imported).toList.map (·.2)) ↔
        ∃ canonical, Represents imports canonical ∧ world.status canonical = .refused :=
      exists_congr fun canonical => and_congr_left fun _ => mem_spokes himports hextension
    rcases hrun : surveySpokes commands keepGoing ((representativesOf imported).toList.map (·.2))
      known with ⟨failure | ⟨spokes, completeSpokes⟩, found⟩
    · rw [hrun] at hspokes houtcome
      have hbad : ¬ (¬ world.Refuses _ ∨ keepGoing = true) := fun hok => by cases hspokes hok
      rw [not_or, not_not, Bool.not_eq_true, hrefuses] at hbad
      rw [houtcome]
      exact ⟨⟨fun _ => Or.inr ⟨hbad.2, hbad.1⟩, fun _ => ⟨failure, rfl⟩⟩,
        fun survey hok => by cases hok⟩
    · rw [hrun] at hfinds hstops hspokes houtcome
      have hgood : ¬ world.Refuses ((representativesOf imported).toList.map (·.2)) ∨
          keepGoing = true := by
        by_contra hbad
        rw [not_or, not_not, Bool.not_eq_true] at hbad
        obtain ⟨failure, hfailure⟩ := hstops hbad.1 hbad.2
        cases hfailure
      have hvalue := hspokes hgood
      simp only [Except.ok.injEq, Prod.mk.injEq] at hvalue
      obtain ⟨rfl, rfl⟩ := hvalue
      rw [hrefuses] at hgood
      rw [houtcome]
      refine ⟨⟨?_, ?_⟩, ?_⟩
      · rintro ⟨failure, hfailure⟩
        cases hfailure
      · rintro (hbad | ⟨hstop, hbad⟩)
        · exact absurd hbad hvisible
        · rcases hgood with hnone | hgoes
          · exact absurd hbad hnone
          · rw [hgoes] at hstop
            cases hstop
      · intro survey hok
        have hsurveys : Surveys world imports (visibleModules canonicalToApparent ++ hidden) hidden
            (completeInputs && failed.isEmpty) failed survey found := by
          cases hok
          exact surveys_of_runs _ himports hextension hsame hmodulesRead hfinds
        refine ⟨hsurveys, hsurveys.exhaustive ?_ ?_⟩
        · intro canonical hcanonical
          refine ⟨hcanonical.1.1, ?_⟩
          rcases hcanonical.1.2 with hmem | ⟨module, -, mapping, hstatus, apparent, hnamed⟩
          · exact hroot canonical hmem
          · exact world.named hstatus hnamed
        · intro hstart
          rw [Bool.and_eq_true, FailedExtensions.isEmpty, Bool.and_eq_true] at hstart
          exact Std.ExtTreeSet.isEmpty_iff.mp hstart.2.2

end Runs

/-! ## An extension with two repositories -/

theorem isExtensionRepo_trimStart (name : String) :
    isExtensionRepo (trimStart '@' name) = isExtensionRepo name := by
  have hmarkers : (name.toList.takeWhile (· == '@')).count '+' = 0 := by
    rw [List.count_eq_zero]
    intro hplus
    exact absurd (List.mem_takeWhile_imp hplus) (by decide)
  have hcount : (name.toList.dropWhile (· == '@')).count '+' = name.toList.count '+' := by
    conv_rhs => rw [← List.takeWhile_append_dropWhile (p := (· == '@')) (l := name.toList)]
    rw [List.count_append, hmarkers, Nat.zero_add]
  rw [isExtensionRepo, isExtensionRepo, trimStart, String.toList_ofList, hcount]

/-- What `rules+` sees: one of the two repositories of its extension. -/
def rulesMapping : RepoMapping :=
  (∅ : RepoMapping).insert "a" "rules++deps+a"

def depsMapping : RepoMapping :=
  rulesMapping.insert "b" "rules++deps+b"

/-- A printed mapping. -/
def rulesLine : String := "\x7b\"a\":\"rules++deps+a\"\x7d"

def depsLine : String := "\x7b\"a\":\"rules++deps+a\",\"b\":\"rules++deps+b\"\x7d"

def rulesStatus (name : String) : MappingStatus :=
  if trimStart '@' name = "rules+" then .answers rulesMapping
  else if trimStart '@' name = "rules++deps+a" ∨ trimStart '@' name = "rules++deps+b" then
    .answers depsMapping
  else .refused

theorem rulesMapping_names {apparent canonical : String} :
    rulesMapping[apparent]? = some canonical ↔ apparent = "a" ∧ canonical = "rules++deps+a" := by
  simp only [rulesMapping, Std.ExtTreeMap.getElem?_insert, Std.LawfulEqCmp.compare_eq_iff_eq]
  by_cases h : "a" = apparent
  · simp [← h, eq_comm]
  · simp [h, Ne.symm h]

theorem depsMapping_names {apparent canonical : String} :
    depsMapping[apparent]? = some canonical ↔
      apparent = "a" ∧ canonical = "rules++deps+a" ∨
        apparent = "b" ∧ canonical = "rules++deps+b" := by
  simp only [depsMapping, Std.ExtTreeMap.getElem?_insert, Std.LawfulEqCmp.compare_eq_iff_eq]
  by_cases h : "b" = apparent
  · simp [← h, eq_comm]
  · simp [h, Ne.symm h, rulesMapping_names]

theorem rulesStatus_eq_answers {name : String} {mapping : RepoMapping} :
    rulesStatus name = .answers mapping ↔
      trimStart '@' name = "rules+" ∧ rulesMapping = mapping ∨
        (trimStart '@' name = "rules++deps+a" ∨ trimStart '@' name = "rules++deps+b") ∧
          depsMapping = mapping := by
  rw [rulesStatus]
  split
  · next h => simp [h]
  · next h =>
      split
      · next h' => simp [h, h']
      · next h' => simp [h, h']

def rulesWorld : RepositoryWorld where
  repositories canonical :=
    canonical = "rules+" ∨ canonical = "rules++deps+a" ∨ canonical = "rules++deps+b"
  status := rulesStatus
  plain name := by rw [rulesStatus, trimStart_trimStart]; rfl
  extension name h := by
    rw [rulesStatus] at h
    split_ifs at h
  named h hnamed := by
    rcases rulesStatus_eq_answers.mp h with ⟨-, rfl⟩ | ⟨-, rfl⟩
    · exact Or.inr (Or.inl (rulesMapping_names.mp hnamed).2)
    · exact Or.inr ((depsMapping_names.mp hnamed).imp And.right And.right)
  siblings {name mapping} h hextension sibling hsibling husage := by
    rcases rulesStatus_eq_answers.mp h with ⟨hname, -⟩ | ⟨hname, rfl⟩
    · rw [← isExtensionRepo_trimStart, hname] at hextension
      exact absurd hextension (by decide +kernel)
    · rcases hsibling with rfl | rfl | rfl
      · have hplain : trimStart '@' name = name := by
          have hsome : usageOf name = some "rules" := husage.symm.trans (by decide +kernel)
          obtain ⟨⟨before, after⟩, hcut, rfl⟩ := Option.map_eq_some_iff.mp hsome
          exact trimStart_of_head (rsplitOnce_eq_some hcut).1 (by decide)
        rw [hplain] at hname
        rcases hname with rfl | rfl
        · exact absurd husage (by decide +kernel)
        · exact absurd husage (by decide +kernel)
      · exact ⟨"a", depsMapping_names.mpr (Or.inl ⟨rfl, rfl⟩)⟩
      · exact ⟨"b", depsMapping_names.mpr (Or.inr ⟨rfl, rfl⟩)⟩

/-- The line Bazel prints for a repository. -/
def printedLine (name : String) : String :=
  if trimStart '@' name = "rules+" then rulesLine else depsLine

/-- How a printed line is read. -/
def parseLine (line : String) : Option RepoMapping :=
  if line = rulesLine then some rulesMapping
  else if line = depsLine then some depsMapping
  else none

def rulesCommands : MappingCommands where
  dumpRepoMapping names := .ok
    (if names.all fun name => (rulesWorld.mappingOf name).isSome then
      { output := { success := true }
        value := utf8 (String.ofList (names.flatMap fun name =>
          (printedLine name).toList ++ ['\n'])) }
    else { output := { success := false }, value := [] })
  parseMapping := parseLine
  argumentBudget := 4096

theorem parseLine_rules : parseLine (trim rulesLine) = some rulesMapping := by
  rw [show trim rulesLine = rulesLine by decide +kernel, parseLine, if_pos rfl]

theorem parseLine_deps : parseLine (trim depsLine) = some depsMapping := by
  rw [show trim depsLine = depsLine by decide +kernel, parseLine,
    if_neg (show depsLine ≠ rulesLine by decide +kernel), if_pos rfl]

theorem parse_printedLine {name : String} (h : (rulesWorld.mappingOf name).isSome = true) :
    rulesCommands.parseMapping (trim (printedLine name)) = rulesWorld.mappingOf name := by
  obtain ⟨mapping, hmapping⟩ := Option.isSome_iff_exists.mp h
  rw [hmapping]
  rcases rulesStatus_eq_answers.mp (mappingOf_eq_some.mp hmapping) with
    ⟨hname, rfl⟩ | ⟨hname, rfl⟩
  · rw [printedLine, if_pos hname]
    exact parseLine_rules
  · have hmodule : trimStart '@' name ≠ "rules+" := by
      rcases hname with hname | hname <;> rw [hname] <;> decide
    rw [printedLine, if_neg hmodule]
    exact parseLine_deps

theorem rulesCommands_describes : rulesCommands.Describes rulesWorld where
  unavailable names := by
    rintro ⟨name, -, hdown⟩
    change rulesStatus name = .unavailable at hdown
    rw [rulesStatus] at hdown
    split_ifs at hdown
  refused names _ hrefused := by
    obtain ⟨name, hname, hstatus⟩ := hrefused
    refine ⟨_, rfl, ?_⟩
    rw [if_neg]
    · exact ⟨rfl, by decide +kernel⟩
    · rw [List.all_eq_true]
      exact fun hall => (isSome_iff.mp (hall name hname)).2 hstatus
  answers names _ hanswers := by
    have hlines : ∀ text ∈ names.map printedLine,
        '\n' ∉ text.toList ∧ hasSuffix "\r" text = false := by
      intro text htext
      obtain ⟨name, -, rfl⟩ := List.mem_map.mp htext
      rw [printedLine]
      split_ifs <;> decide +kernel
    refine ⟨_, rfl, ?_⟩
    rw [if_pos (List.all_eq_true.mpr hanswers)]
    refine ⟨rfl, ?_⟩
    have hread := rulesCommands.readMappings_printed hlines
    rw [List.flatMap_map, List.map_map] at hread
    rw [hread]
    exact List.map_congr_left fun name hname => parse_printedLine (hanswers name hname)

def rulesRoot : StringMap (List String) :=
  (∅ : StringMap (List String)).insert "rules+" ["rules"]

theorem mem_rulesRoot {canonical : String} : canonical ∈ rulesRoot ↔ canonical = "rules+" := by
  rw [rulesRoot, Std.ExtTreeMap.mem_insert, Std.LawfulEqCmp.compare_eq_iff_eq]
  simp [eq_comm]

theorem rulesWorld_imports {canonical : String}
    (h : Imports rulesWorld rulesRoot [] canonical) : canonical = "rules++deps+a" := by
  obtain ⟨hextension, hmem | ⟨module, hread, mapping, hstatus, apparent, hnamed⟩⟩ := h
  · rw [mem_rulesRoot.mp hmem] at hextension
    exact absurd hextension (by decide +kernel)
  · have hmodule : module = "rules+" := by
      rcases hread with hvisible | ⟨hhidden, -⟩
      · rw [show visibleModules rulesRoot = ["rules+"] by decide +kernel] at hvisible
        exact List.mem_singleton.mp hvisible
      · cases hhidden
    rcases rulesStatus_eq_answers.mp hstatus with ⟨-, rfl⟩ | ⟨hname, -⟩
    · exact (rulesMapping_names.mp hnamed).2
    · rw [hmodule] at hname
      exact absurd hname (by decide +kernel)

/-- A repository that nothing imports is found through its sibling. -/
theorem extension_repositories_exact_rules :
    ∃ survey, (extensionRepositories rulesCommands false rulesRoot [] ∅ true {}).1 = .ok survey ∧
      survey.completeMappings = true ∧ "rules++deps+b" ∈ survey.generated := by
  obtain ⟨herror, hok⟩ := @extension_repositories_exact rulesCommands rulesWorld
    rulesCommands_describes false rulesRoot (fun canonical h => Or.inl (mem_rulesRoot.mp h)) []
    (fun name h => absurd h List.not_mem_nil) ∅ (fun name mapping h => by simp at h) true {}
    (fun name h => absurd h Std.ExtTreeSet.not_mem_empty)
  have hrules : rulesWorld.status "rules+" = .answers rulesMapping :=
    mappingOf_eq_some.mp rfl
  have hdeps : (rulesWorld.mappingOf "rules++deps+a").isSome = true := by decide +kernel
  have hmodules : ∀ name ∈ visibleModules rulesRoot ++ [],
      (rulesWorld.mappingOf name).isSome = true := by
    decide +kernel
  have hfirst : ∀ {imports : String → Prop}, (∀ canonical, imports canonical →
      Imports rulesWorld rulesRoot [] canonical) → ∀ canonical, Represents imports canonical →
        (rulesWorld.mappingOf canonical).isSome = true := by
    intro imports himports canonical hcanonical
    rw [rulesWorld_imports (himports canonical hcanonical.1)]
    exact hdeps
  cases hresult : (extensionRepositories rulesCommands false rulesRoot [] ∅ true {}).1 with
  | error failure =>
      rcases herror.mp ⟨failure, hresult⟩ with
        ⟨name, hname, hrefused⟩ | ⟨-, canonical, hrepresents, hrefused⟩
      · have hanswers := hmodules name (List.mem_append_left _ hname)
        exact absurd hrefused (isSome_iff.mp hanswers).2
      · have hanswers := hfirst (fun _ h => h.1) canonical hrepresents
        exact absurd hrefused (isSome_iff.mp hanswers).2
  | ok survey =>
      obtain ⟨hsurvey, hall⟩ := hok survey hresult
      have hcomplete : survey.completeMappings = true :=
        hsurvey.complete.mpr ⟨by decide +kernel, hmodules, hfirst fun _ h => h.1⟩
      refine ⟨survey, rfl, hcomplete, (hall hcomplete _).mpr ⟨Or.inr (Or.inr rfl), ?_⟩⟩
      refine ⟨"rules++deps+a", ⟨⟨by decide +kernel, Or.inr ⟨"rules+", ?_⟩⟩, by decide +kernel⟩,
        by decide +kernel⟩
      exact ⟨Or.inl (by decide +kernel), rulesMapping, hrules, "a",
        rulesMapping_names.mpr ⟨rfl, rfl⟩⟩

end BazelDiff
