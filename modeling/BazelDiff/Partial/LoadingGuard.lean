/-
# Changes below a loading input

A repository rule's definition folds in the content of a local repository and of the
files its labels name, so a change there has to force a rebuild. The classifier compares
texts: a changed path is below a loading input when it starts with the input and a slash.
For a path that git wrote and a place that is spelled the way git spells it, that is
containment of directories. The workspace root is spelled as the empty text, and no path
starts with a slash.
-/

import BazelDiff.Partial.Classify

namespace BazelDiff

open Text

variable {D : Type}

/-! ## Places -/

/-- A path as git writes it: no piece is empty or `.`. -/
def IsGitPath (path : String) : Prop :=
  ∀ piece ∈ split '/' path, piece ≠ "" ∧ piece ≠ "."

instance (path : String) : Decidable (IsGitPath path) :=
  inferInstanceAs (Decidable (∀ piece ∈ split '/' path, piece ≠ "" ∧ piece ≠ "."))

/-- The root of a local repository, by its pieces, when it lies in the workspace. -/
def localPlace (workspace : Workspace) (rule : Rule) : Option (List String) :=
  (localRepositoryPath rule).bind (normalizeWorkspaceParts workspace)

/-- The places a repository rule names in the workspace, by their pieces: the root of a local
repository and the paths of its main-repository labels. -/
def namedPlaces (workspace : Workspace) (rule : Rule) : List (List String) :=
  if !hasPrefix "//external:" rule.name then []
  else (localPlace workspace rule).toList ++
    ((attributeMainRepoLabels rule.attributes).filterMap mainRepoPath).map UnixPath.pieces

/-- The places whose text is a directory's as git spells it. The text of a label is the one
without a suffix that looks like a configuration. -/
def guardedPlaces (workspace : Workspace) (rule : Rule) : List (List String) :=
  if !hasPrefix "//external:" rule.name then []
  else (localPlace workspace rule).toList.filter (· ≠ []) ++
    (((attributeMainRepoLabels rule.attributes).filterMap labelPath).filter fun text =>
      split '/' text = UnixPath.pieces text).map (split '/')

/-- Whether a path is at or below a place. -/
def IsBelow (place : List String) (path : String) : Prop :=
  place <+: split '/' path

instance (place : List String) (path : String) : Decidable (IsBelow place path) :=
  inferInstanceAs (Decidable (place <+: split '/' path))

/-- A changed path that the classifier rebuilds for without looking at the loading inputs. -/
def ForcesRebuild (inputs : ClassifyInputs D) (entry : DiffEntry) : Prop :=
  entry.status ≠ 'M' ∨ isRegularMode entry.oldMode = false ∨
    isRegularMode entry.newMode = false ∨ isGraphDefiningPath entry.path = true ∨
    entry.path ∈ inputs.moduleReferenced ∨ entry.path ∈ seedPaths inputs ∨
    ∃ glob ∈ inputs.rebuildPatterns, glob.matches entry.path = true

/-! ## The textual test -/

theorem isLoadedFrom_iff (path input : String) :
    isLoadedFrom path input = true ↔ split '/' input <+: split '/' path := by
  rw [split_prefix_iff, isLoadedFrom, Bool.or_eq_true, beq_iff_eq]
  rfl

/-- The pieces of a normalized path have no slash in them. -/
theorem not_mem_of_mem_normalizeWorkspaceParts {workspace : Workspace} {value : String}
    {parts : List String} (h : normalizeWorkspaceParts workspace value = some parts) :
    ∀ part ∈ parts, '/' ∉ part.toList := by
  have hwalk : ∀ (components : List UnixPath.Component) (start parts : List String),
      (∀ name, .normal name ∈ components → '/' ∉ name.toList) →
      (∀ part ∈ start, '/' ∉ part.toList) → components.foldlM walkComponent start = some parts →
      ∀ part ∈ parts, '/' ∉ part.toList := by
    intro components
    induction components with
    | nil =>
        intro start parts _ hstart hparts
        obtain rfl := Option.some.inj hparts
        exact hstart
    | cons component rest ih =>
        intro start parts hnormal hstart hparts
        rw [List.foldlM_cons] at hparts
        obtain ⟨next, hnext, hparts⟩ := Option.bind_eq_some_iff.mp hparts
        apply ih next parts (fun name hname => hnormal name (List.mem_cons_of_mem _ hname)) ?_ hparts
        cases component with
        | normal name =>
            obtain rfl := Option.some.inj hnext
            intro part hpart
            rcases List.mem_append.mp hpart with hpart | hpart
            · exact hstart part hpart
            · rw [List.mem_singleton.mp hpart]
              exact hnormal name List.mem_cons_self
        | curDir =>
            obtain rfl := Option.some.inj hnext
            exact hstart
        | parentDir =>
            rw [walkComponent] at hnext
            split_ifs at hnext
            obtain rfl := Option.some.inj hnext
            exact fun part hpart => hstart part (List.dropLast_subset _ hpart)
        | rootDir => cases hnext
  have hcomponents : ∀ (path : String) (name : String),
      .normal name ∈ UnixPath.components path → '/' ∉ name.toList := by
    intro path name hname
    have hmem : .normal name ∈ (UnixPath.pieces path).map UnixPath.ofPiece := by
      rw [UnixPath.components] at hname
      split_ifs at hname <;> simpa using hname
    obtain ⟨piece, hpiece, hof⟩ := List.mem_map.mp hmem
    rw [UnixPath.ofPiece] at hof
    split_ifs at hof
    obtain rfl := UnixPath.Component.normal.inj hof
    exact not_mem_of_mem_split (List.mem_filter.mp hpiece).1
  obtain ⟨components, hrelative, hparts⟩ := Option.bind_eq_some_iff.mp h
  apply hwalk components [] parts ?_ (by simp) hparts
  intro name hname
  have hstrip : ∀ base path, UnixPath.stripBase base path = some components →
      '/' ∉ name.toList := by
    intro base path hstrip
    have happend := List.isPrefixOf?_eq_some_iff_append_eq.mp hstrip
    exact hcomponents path name (happend ▸ List.mem_append_right _ hname)
  rw [relativeComponents] at hrelative
  split_ifs at hrelative
  · rcases Option.or_eq_some_iff.mp hrelative with hstripped | ⟨-, hcanonical⟩
    · exact hstrip _ _ hstripped
    · obtain ⟨canonical, -, hstripped⟩ := Option.bind_eq_some_iff.mp hcanonical
      exact hstrip _ _ hstripped
  · obtain rfl := Option.some.inj hrelative
    exact hcomponents _ name hname

/-- On a path of git the textual test sees exactly the guarded places. -/
theorem exists_isLoadedFrom_iff {path : String} (hgit : IsGitPath path) (workspace : Workspace)
    (rule : Rule) :
    (∃ input ∈ ruleLoadingInputs rule workspace, isLoadedFrom path input = true) ↔
      ∃ place ∈ guardedPlaces workspace rule, IsBelow place path := by
  have hlocal : (localRepositoryPath rule).bind (normalizeWorkspacePath workspace) =
      (localPlace workspace rule).map (join "/") := by
    rw [localPlace, Option.map_bind]
    rfl
  have hempty : ¬ split '/' "" <+: split '/' path := by
    intro hhead
    exact (hgit "" (hhead.subset (by decide))).1 rfl
  rw [ruleLoadingInputs, guardedPlaces, hlocal]
  split_ifs
  · simp
  · simp only [List.mem_append, or_and_right, exists_or, isLoadedFrom_iff]
    apply or_congr
    · constructor
      · rintro ⟨input, hinput, hbelow⟩
        obtain ⟨parts, hparts, rfl⟩ := Option.map_eq_some_iff.mp (Option.mem_toList.mp hinput)
        have hne : parts ≠ [] := by
          rintro rfl
          exact hempty hbelow
        obtain ⟨value, -, hvalue⟩ := Option.bind_eq_some_iff.mp hparts
        refine ⟨parts, List.mem_filter.mpr ⟨Option.mem_toList.mpr hparts, by simpa using hne⟩, ?_⟩
        rwa [show "/" = String.singleton '/' from rfl,
          split_join_pieces hne (not_mem_of_mem_normalizeWorkspaceParts hvalue)] at hbelow
      · rintro ⟨parts, hmem, hbelow⟩
        obtain ⟨hparts, hne⟩ := List.mem_filter.mp hmem
        have hplace := Option.mem_toList.mp hparts
        obtain ⟨value, -, hvalue⟩ := Option.bind_eq_some_iff.mp hplace
        refine ⟨join "/" parts, Option.mem_toList.mpr
          (Option.map_eq_some_iff.mpr ⟨parts, hplace, rfl⟩), ?_⟩
        rwa [show "/" = String.singleton '/' from rfl, split_join_pieces (by simpa using hne)
          (not_mem_of_mem_normalizeWorkspaceParts hvalue)]
    · constructor
      · rintro ⟨text, hmem, hbelow⟩
        have hclean : split '/' text = UnixPath.pieces text := by
          rw [UnixPath.pieces, List.filter_eq_self.mpr]
          intro piece hpiece
          simpa using hgit piece (hbelow.subset hpiece)
        exact ⟨split '/' text, List.mem_map_of_mem (List.mem_filter.mpr
          ⟨(List.mem_filter.mp hmem).1, by simpa using hclean⟩), hbelow⟩
      · rintro ⟨place, hmem, hbelow⟩
        obtain ⟨text, htext, rfl⟩ := List.mem_map.mp hmem
        obtain ⟨hlabel, hclean⟩ := List.mem_filter.mp htext
        refine ⟨text, List.mem_filter.mpr ⟨hlabel, ?_⟩, hbelow⟩
        simp only [decide_eq_true_eq]
        rintro rfl
        exact absurd (of_decide_eq_true hclean) (by decide)

/-! ## The classifier -/

/-- What makes the classifier give a reason for one path. -/
theorem rebuildReason_isSome_iff (inputs : ClassifyInputs D) (recipes : PartialRecipes)
    (entry : DiffEntry) :
    (rebuildReason inputs recipes entry).isSome = true ↔
      ForcesRebuild inputs entry ∨
        ∃ input ∈ recipes.loadInputs, isLoadedFrom entry.path input = true := by
  have hloaded : (recipes.loadInputs.toList.find? (isLoadedFrom entry.path)).isSome = true ↔
      ∃ input ∈ recipes.loadInputs, isLoadedFrom entry.path input = true := by
    simp [List.find?_isSome, Std.ExtTreeSet.mem_toList]
  have hglob : (inputs.rebuildPatterns.find? (·.matches entry.path)).isSome = true ↔
      ∃ glob ∈ inputs.rebuildPatterns, glob.matches entry.path = true := by
    simp [List.find?_isSome]
  rw [← hloaded, ForcesRebuild, ← hglob, rebuildReason]
  split_ifs with hstatus hmode hdefines hmodule hseed
  · simp [hstatus]
  · have hmodes : isRegularMode entry.oldMode = false ∨ isRegularMode entry.newMode = false := by
      simpa using hmode
    rcases hmodes with hold | hnew
    · simp [hold]
    · simp [hnew]
  · simp [hdefines]
  · simp [Std.ExtTreeSet.contains_iff_mem.mp hmodule]
  · simp [List.contains_iff_mem.mp hseed]
  · have hregular : isRegularMode entry.oldMode = true ∧ isRegularMode entry.newMode = true := by
      simpa using hmode
    have hunnamed : entry.path ∉ inputs.moduleReferenced :=
      fun hmem => hmodule (Std.ExtTreeSet.contains_iff_mem.mpr hmem)
    have hunseeded : entry.path ∉ seedPaths inputs :=
      fun hmem => hseed (List.contains_iff_mem.mpr hmem)
    cases recipes.loadInputs.toList.find? (isLoadedFrom entry.path) with
    | some input => simp
    | none => simp [hstatus, hregular, hdefines, hunnamed, hunseeded]

theorem classifyEntries_rebuild_iff (inputs : ClassifyInputs D) (recipes : PartialRecipes)
    (entries : List DiffEntry) (changed unmatched : List String) :
    (∃ reason, classifyEntries inputs recipes entries changed unmatched = .rebuild reason) ↔
      ∃ entry ∈ entries, (rebuildReason inputs recipes entry).isSome = true := by
  induction entries generalizing changed unmatched with
  | nil => simp [classifyEntries]
  | cons entry rest ih =>
      rw [classifyEntries]
      cases hreason : rebuildReason inputs recipes entry with
      | some reason => simp [hreason]
      | none =>
          dsimp only
          split_ifs
          · rw [ih]
            simp [hreason]
          · rw [ih]
            simp [hreason]

/-- A change below a place the repository rules name forces a rebuild exactly when it is below
a guarded place, or another check rebuilds. -/
theorem rebuild_below_loading_inputs_iff {inputs : ClassifyInputs D} {recipes : PartialRecipes}
    (hbase : inputs.base.partialGraph = some recipes) {rules : List Rule} {workspace : Workspace}
    (hrecorded : ∀ path, path ∈ recipes.loadInputs ↔
      ∃ rule ∈ rules, path ∈ ruleLoadingInputs rule workspace)
    (hgit : ∀ entry ∈ inputs.diff, IsGitPath entry.path) :
    ((∃ entry ∈ inputs.diff, ∃ rule ∈ rules, ∃ place ∈ namedPlaces workspace rule,
        IsBelow place entry.path) →
      ∃ reason, classify inputs = .rebuild reason) ↔
    ((∀ entry ∈ inputs.diff, ∀ rule ∈ rules, ∀ place ∈ namedPlaces workspace rule,
        ¬ IsBelow place entry.path) ∨
      (∃ path ∈ inputs.tree.symlinks, isGraphDefiningPath path = true) ∨
      ∃ entry ∈ inputs.diff, ForcesRebuild inputs entry ∨
        ∃ rule ∈ rules, ∃ place ∈ guardedPlaces workspace rule, IsBelow place entry.path) := by
  have hrebuild : (∃ reason, classify inputs = .rebuild reason) ↔
      (∃ path ∈ inputs.tree.symlinks, isGraphDefiningPath path = true) ∨
      ∃ entry ∈ inputs.diff, ForcesRebuild inputs entry ∨
        ∃ rule ∈ rules, ∃ place ∈ guardedPlaces workspace rule, IsBelow place entry.path := by
    have hloaded : ∀ entry ∈ inputs.diff,
        ((∃ input ∈ recipes.loadInputs, isLoadedFrom entry.path input = true) ↔
          ∃ rule ∈ rules, ∃ place ∈ guardedPlaces workspace rule, IsBelow place entry.path) := by
      intro entry hentry
      simp only [← exists_isLoadedFrom_iff (hgit entry hentry), hrecorded]
      constructor
      · rintro ⟨input, ⟨rule, hrule, hinput⟩, hbelow⟩
        exact ⟨rule, hrule, input, hinput, hbelow⟩
      · rintro ⟨rule, hrule, input, hinput, hbelow⟩
        exact ⟨input, ⟨rule, hrule, hinput⟩, hbelow⟩
    rw [classify, hbase]
    dsimp only
    cases hsymlink : inputs.tree.symlinks.find? isGraphDefiningPath with
    | some path =>
        have hdefines : ∃ path ∈ inputs.tree.symlinks, isGraphDefiningPath path = true :=
          ⟨path, List.mem_of_find?_eq_some hsymlink, List.find?_some hsymlink⟩
        simp [hdefines]
    | none =>
        have hplain : ¬ ∃ path ∈ inputs.tree.symlinks, isGraphDefiningPath path = true := by
          simpa using hsymlink
        dsimp only
        rw [classifyEntries_rebuild_iff, or_iff_right hplain]
        apply exists_congr
        intro entry
        apply and_congr_right
        intro hentry
        rw [rebuildReason_isSome_iff, hloaded entry hentry]
  rw [hrebuild, imp_iff_not_or]
  apply or_congr_left
  constructor
  · intro hnone entry hentry rule hrule place hplace hbelow
    exact hnone ⟨entry, hentry, rule, hrule, place, hplace, hbelow⟩
  · rintro hnone ⟨entry, hentry, rule, hrule, place, hplace, hbelow⟩
    exact hnone entry hentry rule hrule place hplace hbelow

/-! ## A local repository at the workspace root -/

/-- A local repository at a path of the workspace. -/
def repositoryAt (path : String) : Rule :=
  { name := "//external:local"
    ruleClass := "local_repository"
    attributes := [{ name := "path", stringValue := some path }] }

/-- The recipes recorded with one repository rule. -/
def recordedWith (rule : Rule) : PartialRecipes :=
  { loadInputs := (ruleLoadingInputs rule ⟨"/ws", none⟩).foldl
      (fun paths path => paths.insert path) ∅ }

/-- A content change of `path` over an entry recorded with one repository rule. -/
def contentChange (rule : Rule) (path : String) : ClassifyInputs Preimage :=
  { diff := [⟨path, 'M', "100644", "100644"⟩]
    tree := ⟨∅, none⟩
    base := { partialGraph := some (recordedWith rule) }
    workspace := ⟨"/ws", none⟩
    seedFilepaths := []
    rebuildPatterns := []
    moduleReferenced := ∅ }

theorem mem_recordedWith (rule : Rule) (path : String) :
    path ∈ (recordedWith rule).loadInputs ↔
      ∃ r ∈ [rule], path ∈ ruleLoadingInputs r ⟨"/ws", none⟩ := by
  rw [recordedWith, mem_foldl_insert]
  simp

/-- Below an ordinary directory the change is seen. -/
theorem rebuild_below_ordinary_directory :
    ∃ reason, classify (contentChange (repositoryAt "./lib") "lib/a.txt") = .rebuild reason :=
  (rebuild_below_loading_inputs_iff rfl
    (mem_recordedWith (repositoryAt "./lib")) (by decide +kernel)).mpr
    (.inr (.inr ⟨_, List.mem_singleton_self _, .inr ⟨_, List.mem_singleton_self _, ["lib"],
      by decide +kernel, by decide +kernel⟩⟩))
    ⟨_, List.mem_singleton_self _, _, List.mem_singleton_self _, ["lib"], by decide +kernel,
      by decide +kernel⟩

/-- A local repository at the workspace root contains every path of the workspace, and no
change is seen to be below it. -/
theorem change_below_root_not_rebuilt :
    (∃ entry ∈ (contentChange (repositoryAt ".") "src/a.txt").diff,
      ∃ place ∈ namedPlaces ⟨"/ws", none⟩ (repositoryAt "."), IsBelow place entry.path) ∧
    ∀ reason, classify (contentChange (repositoryAt ".") "src/a.txt") ≠ .rebuild reason := by
  constructor
  · exact ⟨_, List.mem_singleton_self _, [], by decide +kernel, List.nil_prefix⟩
  · have hderived : classify (contentChange (repositoryAt ".") "src/a.txt") =
        .derivable [] ["src/a.txt"] := by
      decide +kernel
    intro reason
    rw [hderived]
    exact Classification.noConfusion

end BazelDiff
