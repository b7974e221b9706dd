/-
# Reading repository definitions

Repositories are asked for by canonical name, and the modules no mapping names by their
module key. When the names do not fit one invocation, one for all repositories takes their
place, and its answer is cut down to what was asked for.
-/

import BazelDiff.Query.Repositories
import BazelDiff.Query.Unavailable

namespace BazelDiff

open Text

/-- A repository with the names it can be printed under. -/
structure RepositoryRecord extends Repository where
  moduleKey : Option String := none
  apparentName : Option String := none
  deriving DecidableEq

/-- The invocations of Bazel, with what decoding their output gives. -/
structure ShowCommands where
  /-- `bazel mod dump_repo_mapping`. -/
  mapping : List String → Result ModOutput
  /-- `bazel mod show_repo` of some names. -/
  showRepo : List String → Result (Attempt (Result (List RepositoryRecord)))
  /-- `bazel mod show_repo --all_repos`. -/
  showAllRepos : Result (Attempt (Result (List RepositoryRecord)))
  checkCancelled : Result Unit := .ok ()
  /-- The bytes of names a mapping call has room for. -/
  argumentBudget : Nat

section Commands

variable (commands : ShowCommands)

/-- Ask for the names of one chunk after the other. -/
def showChunks : List (List String) → FailedExtensions →
    Result (List RepositoryRecord) × FailedExtensions
  | [], failed => (.ok [], failed)
  | chunk :: chunks, failed =>
      match runModOverRepos commands.mapping commands.argumentBudget "show_repo"
          commands.showRepo chunk failed with
      | (.error failure, failed) => (.error failure, failed)
      | (.ok none, failed) => showChunks chunks failed
      | (.ok (some (.error failure)), failed) => (.error failure, failed)
      | (.ok (some (.ok records)), failed) =>
          match showChunks chunks failed with
          | (.error failure, failed) => (.error failure, failed)
          | (.ok more, failed) => (.ok (records ++ more), failed)

def showRepositoriesExplicit (names : List String) (failed : FailedExtensions) (budget : Nat) :
    Result (List RepositoryRecord) × FailedExtensions :=
  showChunks commands (chunkArguments names budget) failed

/-- The answer of the invocation for all repositories. -/
structure BulkRepositories where
  byCanonical : StringMap RepositoryRecord
  complete : Bool

/-- File one record. A record without a name, or with one that is taken, leaves the answer
incomplete. -/
def BulkRepositories.add (failed : FailedExtensions) (bulk : BulkRepositories)
    (record : RepositoryRecord) : BulkRepositories :=
  match record.canonicalName with
  | none => { bulk with complete := false }
  | some canonical =>
      let canonical := trimStart '@' canonical
      if hasUnavailableMapping canonical failed then bulk
      else
        { byCanonical := bulk.byCanonical.insert canonical record
          complete := bulk.complete && !bulk.byCanonical.contains canonical }

/-- Ask for all repositories; `none` when Bazel did not answer. -/
def showAllRepositories (failed : FailedExtensions) :
    Result (Option BulkRepositories) × FailedExtensions :=
  match commands.showAllRepos with
  | .error failure => (.error failure, failed)
  | .ok attempted =>
      let (answered, failed) :=
        if attempted.output.success then (true, failed)
        else
          match extensionFailure attempted.output.stderr with
          | some failure => (failure.answered, noteFailedExtensions failed failure.extensions)
          | none => (false, failed)
      if !answered then (.ok none, failed)
      else
        match attempted.value with
        | .error failure => (.error failure, failed)
        | .ok records =>
            (.ok (some (records.foldl (BulkRepositories.add failed)
              { byCanonical := ∅, complete := attempted.output.success && failed.isEmpty })),
              failed)

/-- Take the records of some names out of the answer. -/
def takeRecords : List String → StringMap RepositoryRecord → List RepositoryRecord
  | [], _ => []
  | name :: names, byCanonical =>
      match byCanonical[trimStart '@' name]? with
      | some record => record :: takeRecords names (byCanonical.erase (trimStart '@' name))
      | none => takeRecords names byCanonical

/-- The record of a hidden module. It is printed like the record of its canonical name, with its
key. -/
def hiddenRecord (bulk : BulkRepositories) (bindings : StringMap String) (key : String) :
    Option RepositoryRecord := do
  let name ← bindings[key]?
  let record ← bulk.byCanonical[name]?
  if record.moduleKey.isSome || record.apparentName.isSome then none
  else some { record with moduleKey := some key }

def hiddenRecords (bulk : BulkRepositories) (bindings : Option (StringMap String))
    (hidden : List String) : Option (List RepositoryRecord) := do
  guard bulk.complete
  let bindings ← bindings
  hidden.mapM (hiddenRecord bulk bindings)

/-- The canonical names of a list that has them before the module keys. -/
def canonicalNames (names : List String) : List String :=
  names.takeWhile (hasPrefix "@@")

/-- The module keys of such a list. -/
def hiddenNames (names : List String) : List String :=
  names.dropWhile (hasPrefix "@@")

/-- Read repositories in bulk or by name, whichever takes fewer invocations. -/
def showRepositoriesWithin (names : List String) (failed : FailedExtensions) (budget : Nat)
    (hiddenBindings : Option (StringMap String)) :
    Result (List RepositoryRecord) × FailedExtensions :=
  let selectedBytes := ((canonicalNames names).map fun name => (utf8 name).length + 1).sum
  if budget < selectedBytes then
    match showAllRepositories commands failed with
    | (.ok (some bulk), failed) =>
        let repositories := takeRecords (canonicalNames names) bulk.byCanonical
        match hiddenRecords bulk hiddenBindings (hiddenNames names) with
        | some records => (.ok (repositories ++ records), failed)
        | none =>
            match showRepositoriesExplicit commands (hiddenNames names) failed budget with
            | (.error failure, failed) => (.error failure, failed)
            | (.ok records, failed) => (.ok (repositories ++ records), failed)
    -- A spoilt answer is reported, and the names are asked for after all.
    | (_, failed) =>
        match commands.checkCancelled with
        | .error failure => (.error failure, failed)
        | .ok () => showRepositoriesExplicit commands names failed budget
  else showRepositoriesExplicit commands names failed budget

end Commands

/-! ## A fixed catalog -/

/-- The name a record is filed under. -/
def recordName (record : RepositoryRecord) : String :=
  trimStart '@' record.canonical

/-- All repositories there are, told apart by their canonical names, and the canonical names of
the modules. -/
structure Catalog where
  records : List RepositoryRecord
  moduleOf : String → Option String
  named : ∀ record ∈ records, record.canonicalName.isSome = true
  unique : (records.map recordName).Nodup
  plain : ∀ record ∈ records, record.moduleKey = none ∧ record.apparentName = none

namespace Catalog

variable (catalog : Catalog)

def find (name : String) : Option RepositoryRecord :=
  catalog.records.find? fun record => recordName record = name

/-- What `show_repo` prints for one argument. -/
def shown (name : String) : Option RepositoryRecord :=
  if hasPrefix "@@" name then catalog.find (trimStart '@' name)
  else ((catalog.moduleOf name).bind catalog.find).map fun record =>
    { record with moduleKey := some name }

/-- Bazel answers from the catalog, in the order of its arguments. -/
structure AnsweredBy (commands : ShowCommands) : Prop where
  showRepo : ∀ names, names ≠ [] → ∃ attempted, commands.showRepo names = .ok attempted ∧
    attempted.output.success = true ∧ attempted.value = .ok (names.filterMap catalog.shown)
  showAllRepos : ∃ attempted, commands.showAllRepos = .ok attempted ∧
    attempted.output.success = true ∧ attempted.value = .ok catalog.records

variable {catalog} {commands : ShowCommands}

/-- Reading by name answers for the names that are not known to be unavailable. -/
theorem AnsweredBy.showChunks_eq (h : catalog.AnsweredBy commands) (chunks : List (List String))
    (failed : FailedExtensions) :
    showChunks commands chunks failed =
      (.ok ((withoutFailed chunks.flatten failed).filterMap catalog.shown), failed) := by
  induction chunks with
  | nil => rfl
  | cons chunk chunks ih =>
      have hsplit : withoutFailed (chunk :: chunks).flatten failed =
          withoutFailed chunk failed ++ withoutFailed chunks.flatten failed := by
        rw [List.flatten_cons, withoutFailed, List.filter_append]
        rfl
      rw [showChunks, runModOverRepos, runModFrom, hsplit, List.filterMap_append]
      by_cases hnil : withoutFailed chunk failed = []
      · simp only [hnil, if_true, ih, List.filterMap_nil, List.nil_append]
      · obtain ⟨attempted, hrun, hsuccess, hvalue⟩ := h.showRepo _ hnil
        simp only [hnil, if_false, hrun, hsuccess, if_true, hvalue, ih]

theorem AnsweredBy.showRepositoriesExplicit_eq (h : catalog.AnsweredBy commands)
    (names : List String) (failed : FailedExtensions) (budget : Nat) :
    showRepositoriesExplicit commands names failed budget =
      (.ok ((withoutFailed names failed).filterMap catalog.shown), failed) := by
  rw [showRepositoriesExplicit, h.showChunks_eq, chunkArguments_flatten]

theorem hasUnavailableMapping_trimStart (name : String) (failed : FailedExtensions) :
    hasUnavailableMapping (trimStart '@' name) failed = hasUnavailableMapping name failed := by
  rw [hasUnavailableMapping, trimStart_trimStart, hasUnavailableMapping]

/-- What filing a record with a name does. -/
theorem add_eq {failed : FailedExtensions} {bulk : BulkRepositories} {record : RepositoryRecord}
    (hnamed : record.canonicalName.isSome = true) :
    bulk.add failed record =
      if failed.unavailable.contains (recordName record) then bulk
      else
        { byCanonical := bulk.byCanonical.insert (recordName record) record
          complete := bulk.complete && !bulk.byCanonical.contains (recordName record) } := by
  obtain ⟨canonical, hcanonical⟩ := Option.isSome_iff_exists.mp hnamed
  have hname : recordName record = trimStart '@' canonical := by
    rw [recordName, Repository.canonical, hcanonical]
    rfl
  rw [BulkRepositories.add, hcanonical, hname]
  dsimp only
  rw [hasUnavailableMapping_trimStart]
  rfl

/-- Filing records of different names one after the other. -/
theorem foldl_add {failed : FailedExtensions} {records : List RepositoryRecord}
    (hnamed : ∀ record ∈ records, record.canonicalName.isSome = true)
    (hunique : (records.map recordName).Nodup) (bulk : BulkRepositories)
    (hfresh : ∀ record ∈ records, recordName record ∉ bulk.byCanonical) :
    (records.foldl (BulkRepositories.add failed) bulk).complete = bulk.complete ∧
      ∀ name, (records.foldl (BulkRepositories.add failed) bulk).byCanonical[name]? =
        (if failed.unavailable.contains name then none
          else records.find? fun record => recordName record = name).or
            bulk.byCanonical[name]? := by
  induction records generalizing bulk with
  | nil => simp
  | cons record records ih =>
      obtain ⟨hrecord, hnamed⟩ := List.forall_mem_cons.mp hnamed
      obtain ⟨hnew, hfresh⟩ := List.forall_mem_cons.mp hfresh
      rw [List.map_cons, List.nodup_cons] at hunique
      obtain ⟨hother, hunique⟩ := hunique
      rw [List.foldl_cons, add_eq hrecord]
      cases hbad : failed.unavailable.contains (recordName record) with
      | true =>
          rw [if_pos rfl]
          obtain ⟨hcomplete, hlookup⟩ := ih hnamed hunique bulk hfresh
          refine ⟨hcomplete, fun name => ?_⟩
          rw [hlookup name]
          cases hname : failed.unavailable.contains name with
          | true => rfl
          | false =>
              have hne : recordName record ≠ name := fun heq => by simp [heq, hname] at hbad
              rw [List.find?_cons_of_neg (by simpa using hne)]
      | false =>
          have hcontains : bulk.byCanonical.contains (recordName record) = false := by
            rw [← Bool.not_eq_true, Std.ExtTreeMap.contains_iff_mem]
            exact hnew
          have hnext : ∀ other ∈ records, recordName other ∉
              bulk.byCanonical.insert (recordName record) record := by
            intro next hmem hin
            rcases Std.ExtTreeMap.mem_insert.mp hin with heq | hin
            · exact hother (List.mem_map.mpr ⟨next, hmem, (Std.compare_eq_iff_eq.mp heq).symm⟩)
            · exact hfresh next hmem hin
          rw [if_neg Bool.false_ne_true, hcontains, Bool.not_false, Bool.and_true]
          obtain ⟨hcomplete, hlookup⟩ := ih hnamed hunique
            { byCanonical := bulk.byCanonical.insert (recordName record) record
              complete := bulk.complete } hnext
          refine ⟨hcomplete, fun name => ?_⟩
          rw [hlookup name, Std.ExtTreeMap.getElem?_insert]
          by_cases heq : recordName record = name
          · subst heq
            have hnone : (records.find? fun next => recordName next = recordName record) = none := by
              rw [List.find?_eq_none]
              intro next hmem
              simpa using fun h => hother (List.mem_map.mpr ⟨next, hmem, h⟩)
            rw [hbad, if_neg Bool.false_ne_true, if_neg Bool.false_ne_true, hnone,
              List.find?_cons_of_pos (by simp), if_pos Std.ReflCmp.compare_self]
            rfl
          · rw [if_neg (fun h => heq (Std.compare_eq_iff_eq.mp h)),
              List.find?_cons_of_neg (by simpa using heq)]

/-- The answer for all repositories holds the catalog, without what is known to be
unavailable. -/
theorem AnsweredBy.showAllRepositories_eq (h : catalog.AnsweredBy commands)
    (failed : FailedExtensions) :
    ∃ bulk, showAllRepositories commands failed = (.ok (some bulk), failed) ∧
      bulk.complete = failed.isEmpty ∧
      ∀ name, bulk.byCanonical[name]? =
        if failed.unavailable.contains name then none else catalog.find name := by
  obtain ⟨attempted, hrun, hsuccess, hvalue⟩ := h.showAllRepos
  obtain ⟨hcomplete, hlookup⟩ := @foldl_add failed catalog.records catalog.named catalog.unique
    { byCanonical := ∅, complete := failed.isEmpty } (by simp)
  refine ⟨_, ?_, hcomplete, fun name => ?_⟩
  · rw [showAllRepositories]
    simp only [hrun, hsuccess, if_true, hvalue, Bool.not_true, Bool.false_eq_true, if_false,
      Bool.true_and]
  · rw [hlookup name, Std.ExtTreeMap.getElem?_empty, Option.or_none]
    rfl

/-- Names that differ are looked up without regard to what has been taken out. -/
theorem takeRecords_eq {names : List String} (hdistinct : (names.map (trimStart '@')).Nodup)
    (byCanonical : StringMap RepositoryRecord) :
    takeRecords names byCanonical =
      names.filterMap fun name => byCanonical[trimStart '@' name]? := by
  induction names generalizing byCanonical with
  | nil => rfl
  | cons name names ih =>
      rw [List.map_cons, List.nodup_cons] at hdistinct
      rw [takeRecords]
      cases hfound : byCanonical[trimStart '@' name]? with
      | none =>
          simp only [List.filterMap_cons, hfound]
          exact ih hdistinct.2 byCanonical
      | some record =>
          simp only [List.filterMap_cons, hfound]
          rw [ih hdistinct.2]
          congr 1
          apply List.filterMap_congr
          intro other hother
          rw [Std.ExtTreeMap.getElem?_erase, if_neg]
          intro heq
          exact hdistinct.1 (List.mem_map.mpr ⟨other, hother, (Std.compare_eq_iff_eq.mp heq).symm⟩)

/-- Lookups that all succeed, and that another function agrees with where they do. -/
theorem filterMap_of_mapM {α β : Type} {f g : α → Option β} {items : List α} {results : List β}
    (h : items.mapM f = some results)
    (hagree : ∀ item ∈ items, ∀ result, f item = some result → g item = some result) :
    items.filterMap g = results := by
  induction items generalizing results with
  | nil =>
      cases h
      rfl
  | cons item items ih =>
      rw [List.mapM_cons] at h
      obtain ⟨result, hresult, h⟩ := Option.bind_eq_some_iff.mp h
      obtain ⟨rest, hrest, h⟩ := Option.bind_eq_some_iff.mp h
      cases h
      obtain ⟨hitem, hitems⟩ := List.forall_mem_cons.mp hagree
      rw [List.filterMap_cons_some (hitem result hresult), ih hrest hitems]

/-- A hidden module's record is the one `show_repo` prints for its key. -/
theorem shown_of_hiddenRecord {bulk : BulkRepositories} {bindings : StringMap String}
    {key : String} {record : RepositoryRecord} (hkey : hasPrefix "@@" key = false)
    (hbinding : bindings[key]? = catalog.moduleOf key)
    (hlookup : ∀ name, bulk.byCanonical[name]? = catalog.find name)
    (h : hiddenRecord bulk bindings key = some record) : catalog.shown key = some record := by
  rw [hiddenRecord, hbinding] at h
  obtain ⟨name, hname, h⟩ := Option.bind_eq_some_iff.mp h
  obtain ⟨found, hfound, h⟩ := Option.bind_eq_some_iff.mp h
  rw [hlookup name] at hfound
  split at h
  · cases h
  · rw [shown, hkey, if_neg Bool.false_ne_true, hname, Option.bind_some, hfound]
    exact h

theorem hiddenRecords_eq {failed : FailedExtensions} {bulk : BulkRepositories}
    {bindings : Option (StringMap String)} {hidden : List String} {records : List RepositoryRecord}
    (hkeys : ∀ key ∈ hidden, hasPrefix "@@" key = false)
    (hbindings : ∀ map, bindings = some map → ∀ key ∈ hidden, map[key]? = catalog.moduleOf key)
    (hcomplete : bulk.complete = failed.isEmpty)
    (hlookup : ∀ name, bulk.byCanonical[name]? =
      if failed.unavailable.contains name then none else catalog.find name)
    (h : hiddenRecords bulk bindings hidden = some records) :
    records = (withoutFailed hidden failed).filterMap catalog.shown := by
  rw [hiddenRecords] at h
  obtain ⟨_, hguard, h⟩ := Option.bind_eq_some_iff.mp h
  obtain ⟨map, hmap, h⟩ := Option.bind_eq_some_iff.mp h
  have hempty : failed.unavailable = ∅ := by
    have hall : failed.isEmpty = true := by
      rw [← hcomplete]
      by_contra hfalse
      rw [guard, if_neg hfalse] at hguard
      cases hguard
    rw [FailedExtensions.isEmpty, Bool.and_eq_true] at hall
    exact Std.ExtTreeSet.isEmpty_iff.mp hall.2
  have hnothing : ∀ name, failed.unavailable.contains name = false := by
    intro name
    rw [hempty]
    rfl
  have hwithout : withoutFailed hidden failed = hidden :=
    List.filter_eq_self.mpr fun key _ => by simp [hasUnavailableMapping, hnothing]
  have hfind : ∀ name, bulk.byCanonical[name]? = catalog.find name := fun name => by
    rw [hlookup name, hnothing name, if_neg Bool.false_ne_true]
  rw [hwithout]
  apply (filterMap_of_mapM h _).symm
  intro key hkey record hrecord
  exact shown_of_hiddenRecord (hkeys key hkey) (hbindings map hmap key hkey) hfind hrecord

/-- Canonical names taken out of the answer are the names that are asked for. -/
theorem takeRecords_canonical {failed : FailedExtensions} {bulk : BulkRepositories}
    {names : List String} (hcanonical : ∀ name ∈ names, hasPrefix "@@" name = true)
    (hdistinct : (names.map (trimStart '@')).Nodup)
    (hlookup : ∀ name, bulk.byCanonical[name]? =
      if failed.unavailable.contains name then none else catalog.find name) :
    takeRecords names bulk.byCanonical =
      (withoutFailed names failed).filterMap catalog.shown := by
  rw [takeRecords_eq hdistinct, withoutFailed, List.filterMap_filter]
  apply List.filterMap_congr
  intro name hname
  rw [hlookup, shown, if_pos (hcanonical name hname), hasUnavailableMapping]
  cases failed.unavailable.contains (trimStart '@' name) <;> rfl

end Catalog

/-- **Reading in bulk gives the records that reading by name gives, in the same order, when no
canonical name is asked for twice.** -/
theorem bulk_read_eq_explicit {catalog : Catalog} {commands : ShowCommands}
    (h : catalog.AnsweredBy commands) {names : List String}
    (hdistinct : ((canonicalNames names).map (trimStart '@')).Nodup)
    (hkeys : ∀ key ∈ hiddenNames names, hasPrefix "@@" key = false)
    {bindings : Option (StringMap String)}
    (hbindings : ∀ map, bindings = some map →
      ∀ key ∈ hiddenNames names, map[key]? = catalog.moduleOf key)
    (failed : FailedExtensions) (budget budget' : Nat) :
    showRepositoriesWithin commands names failed budget bindings =
      showRepositoriesExplicit commands names failed budget' := by
  have hsplit : withoutFailed names failed =
      withoutFailed (canonicalNames names) failed ++ withoutFailed (hiddenNames names) failed := by
    rw [withoutFailed, withoutFailed, withoutFailed, ← List.filter_append, canonicalNames,
      hiddenNames, List.takeWhile_append_dropWhile]
  have hcanonical : ∀ name ∈ canonicalNames names, hasPrefix "@@" name = true := fun name hmem =>
    List.mem_takeWhile_imp hmem
  rw [showRepositoriesWithin, h.showRepositoriesExplicit_eq names failed budget']
  split
  · obtain ⟨bulk, hall, hcomplete, hlookup⟩ := h.showAllRepositories_eq failed
    have htake := Catalog.takeRecords_canonical hcanonical hdistinct hlookup
    rw [hall, hsplit, List.filterMap_append, ← htake]
    dsimp only
    cases hhidden : hiddenRecords bulk bindings (hiddenNames names) with
    | some records =>
        rw [Catalog.hiddenRecords_eq hkeys hbindings hcomplete hlookup hhidden]
    | none => rw [h.showRepositoriesExplicit_eq]
  · rw [h.showRepositoriesExplicit_eq]

/-- A Bazel that answers from a catalog. -/
def Catalog.commands (catalog : Catalog) : ShowCommands where
  mapping _ := .ok { success := true }
  showRepo names := .ok
    { output := { success := true }, value := .ok (names.filterMap catalog.shown) }
  showAllRepos := .ok { output := { success := true }, value := .ok catalog.records }
  argumentBudget := 4096

theorem Catalog.answeredBy_commands (catalog : Catalog) : catalog.AnsweredBy catalog.commands where
  showRepo _ _ := ⟨_, rfl, rfl, rfl⟩
  showAllRepos := ⟨_, rfl, rfl, rfl⟩

/-- Two modules the root names, and one only a dependency does. -/
def smallCatalog : Catalog where
  records := [{ canonicalName := some "a+" }, { canonicalName := some "b+" },
    { canonicalName := some "dep+" }]
  moduleOf key := if key = "dep@1.0" then some "dep+" else none
  named := by decide
  unique := by decide +kernel
  plain := by decide

/-- A budget for one name and a budget for all of them. -/
theorem bulk_read_eq_explicit_smallCatalog :
    showRepositoriesWithin smallCatalog.commands ["@@a+", "@@b+", "dep@1.0"] {} 8
        (some ((∅ : StringMap String).insert "dep@1.0" "dep+")) =
      showRepositoriesExplicit smallCatalog.commands ["@@a+", "@@b+", "dep@1.0"] {} 4096 := by
  apply bulk_read_eq_explicit smallCatalog.answeredBy_commands
  · decide +kernel
  · decide +kernel
  · rintro map ⟨⟩ key hkey
    have hhidden : hiddenNames ["@@a+", "@@b+", "dep@1.0"] = ["dep@1.0"] := by decide +kernel
    rw [hhidden, List.mem_singleton] at hkey
    subst hkey
    decide +kernel

/-- A name that is asked for twice is read once in bulk and twice by name. -/
theorem bulk_read_drops_repeated_name :
    ¬ (showRepositoriesWithin smallCatalog.commands ["@@a+", "@@a+"] {} 8 none).1 =
      (showRepositoriesExplicit smallCatalog.commands ["@@a+", "@@a+"] {} 8).1 := by
  rw [smallCatalog.answeredBy_commands.showRepositoriesExplicit_eq]
  decide +kernel

end BazelDiff
