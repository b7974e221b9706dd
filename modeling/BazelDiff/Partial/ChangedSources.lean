/-
# From a changed path to the sources that read it

Hashing maps a source label to a path and reads what the tree shows there. The classifier
goes the other way: it maps a changed path to the labels that name it, or a directory above
it, under any package split. For the labels Bazel gives source files the two directions meet:
every source whose digest moves between two trees is reported as changed.
-/

import BazelDiff.Partial.Derivation
import BazelDiff.Partial.TreeView

namespace BazelDiff

open Text HashFunction

variable {D : Type}

/-! ## The labels of a path -/

/-- The pieces of a package's path: none for the root package. -/
def packagePieces (package : String) : List String :=
  if package = "" then [] else split '/' package

theorem join_packagePieces (package : String) : join "/" (packagePieces package) = package := by
  rw [packagePieces]
  split_ifs with hempty
  · rw [hempty]
    rfl
  · exact join_split '/' package

theorem split_targetPath (package name : String) :
    split '/' (targetPath package name) = packagePieces package ++ split '/' name := by
  rw [targetPath, packagePieces]
  split_ifs
  · rfl
  · exact split_append_singleton '/' package name

theorem split_ne_nil (c : Char) (s : String) : split c s ≠ [] := by
  rw [split, Ne, List.map_eq_nil_iff]
  exact List.splitOn_ne_nil c s.toList

/-- A path that is a source's path or lies below it has the source's label among its labels. -/
theorem mem_sourceLabelsForPath {hashes : StringMap (TargetHash D)} {package name path : String}
    {hash : TargetHash D} (hhash : hashes["//" ++ (package ++ ":" ++ name)]? = some hash)
    (hkind : hash.kind = "SourceFile")
    (hpath : split '/' (targetPath package name) <+: split '/' path) :
    "//" ++ (package ++ ":" ++ name) ∈ sourceLabelsForPath hashes path := by
  obtain ⟨more, hmore⟩ := hpath
  rw [split_targetPath] at hmore
  obtain ⟨below, hbelow⟩ : ∃ below, (split '/' name).length = below + 1 :=
    Nat.exists_eq_succ_of_ne_zero fun h => split_ne_nil '/' name (List.length_eq_zero_iff.mp h)
  have hlength : (packagePieces package ++ split '/' name).length =
      (packagePieces package).length + below + 1 := by
    rw [List.length_append, hbelow]
    rfl
  have htake : (split '/' path).take ((packagePieces package).length + below + 1) =
      packagePieces package ++ split '/' name := by
    rw [← hmore, ← hlength, List.take_left]
  have hslash : join "/" (split '/' name) = name := join_split '/' name
  rw [sourceLabelsForPath, List.mem_filter]
  constructor
  · apply List.mem_flatMap.mpr
    refine ⟨(packagePieces package).length + below, ?_, ?_⟩
    · rw [List.mem_reverse, List.mem_range, ← hmore, List.length_append, hlength]
      omega
    · apply List.mem_map.mpr
      refine ⟨(packagePieces package).length, ?_, ?_⟩
      · rw [List.mem_range]
        omega
      · rw [htake, List.take_left, List.drop_left, join_packagePieces, hslash]
        simp [String.append_assoc]
  · rw [hhash]
    simp [hkind]

/-! ## What a derivable classification reports -/

theorem classifyEntries_reports {inputs : ClassifyInputs D} {recipes : PartialRecipes}
    {entries : List DiffEntry} {sources paths changed unmatched : List String}
    (h : classifyEntries inputs recipes entries sources paths = .derivable changed unmatched) :
    (∀ label ∈ sources, label ∈ changed) ∧
      ∀ entry ∈ entries, ∀ label ∈ sourceLabelsForPath inputs.base.hashes entry.path,
        label ∈ changed := by
  induction entries generalizing sources paths with
  | nil =>
      obtain ⟨rfl, -⟩ := Classification.derivable.inj h
      exact ⟨fun _ hlabel => hlabel, fun _ hentry => absurd hentry List.not_mem_nil⟩
  | cons first rest ih =>
      rw [classifyEntries] at h
      cases hreason : rebuildReason inputs recipes first with
      | some reason => simp [hreason] at h
      | none =>
          simp only [hreason] at h
          split_ifs at h with hnone
          · obtain ⟨hsources, hrest⟩ := ih h
            refine ⟨hsources, fun entry hentry label hlabel => ?_⟩
            rcases List.mem_cons.mp hentry with rfl | hentry
            · rw [List.isEmpty_iff.mp hnone] at hlabel
              exact absurd hlabel List.not_mem_nil
            · exact hrest entry hentry label hlabel
          · obtain ⟨hsources, hrest⟩ := ih h
            refine ⟨fun label hlabel => hsources label (List.mem_append_left _ hlabel),
              fun entry hentry label hlabel => ?_⟩
            rcases List.mem_cons.mp hentry with rfl | hentry
            · exact hsources label (List.mem_append_right _ hlabel)
            · exact hrest entry hentry label hlabel

/-- Every label of every changed path is reported. -/
theorem mem_changedSources {inputs : ClassifyInputs D} {changed unmatched : List String}
    (h : classify inputs = .derivable changed unmatched) {entry : DiffEntry}
    (hentry : entry ∈ inputs.diff) {label : String}
    (hlabel : label ∈ sourceLabelsForPath inputs.base.hashes entry.path) : label ∈ changed := by
  rw [classify] at h
  cases hrecipes : inputs.base.partialGraph with
  | none => simp [hrecipes] at h
  | some recipes =>
      simp only [hrecipes] at h
      split at h
      · cases h
      · exact (classifyEntries_reports h).2 entry hentry label hlabel

/-! ## What a moved digest says about the diff -/

variable [HashFunction D]

/-- A source whose digest moves has a changed path at its own path or below it. -/
theorem exists_changed_of_sourceDigest_ne {old new : TreeIndex} {label path : String}
    {seed : List UInt8} (hpath : mainRepoPath label = some path)
    (hdigest : (sourceDigest old label seed : D) ≠ sourceDigest new label seed) :
    ∃ changed, old.get changed ≠ new.get changed ∧
      (changed = path ∨ hasPrefix (TreeIndex.directoryStart path) changed = true) := by
  by_contra hnone
  push Not at hnone
  apply hdigest
  have hsame : SameView old new path := by
    constructor
    · by_contra hne
      exact (hnone path hne).1 rfl
    · intro _ relative
      by_contra hne
      apply (hnone _ hne).2
      rw [hasPrefix_iff]
      exact ⟨relative.toList, String.toList_append⟩
  rw [sourceDigest, sourceDigest, hpath]
  show (digest (treeContent D old path ++ seed ++ utf8 label) : D) =
    digest (treeContent D new path ++ seed ++ utf8 label)
  rw [treeContent_congr hsame]

/-- A package and a name as a source file's label has them: the name is not empty, does not
end in a slash, and the package has no colon either. -/
structure IsSourceName (package name : String) : Prop where
  package_plain : ':' ∉ package.toList
  name_plain : ':' ∉ name.toList
  nonempty : name ≠ ""
  file : hasSuffix "/" name = false

/-- Below such a source lies what starts with its path and a slash. -/
theorem IsSourceName.directoryStart {package name : String} (h : IsSourceName package name) :
    TreeIndex.directoryStart (targetPath package name) = targetPath package name ++ "/" := by
  have hends : ∃ front, targetPath package name = front ++ name := by
    rw [targetPath]
    split_ifs
    · exact ⟨"", by simp⟩
    · exact ⟨package ++ "/", rfl⟩
  obtain ⟨front, hfront⟩ := hends
  rw [TreeIndex.directoryStart, hfront, if_neg]
  rintro (hempty | hslash)
  · exact h.nonempty (String.append_eq_empty_iff.mp hempty).2
  · have hshort : ("/" : String).toList.length ≤ name.toList.length := by
      apply Nat.one_le_iff_ne_zero.mpr
      exact fun hzero => h.nonempty (String.toList_eq_nil_iff.mp (List.length_eq_zero_iff.mp hzero))
    rw [hasSuffix, List.isSuffixOf_iff_suffix, String.toList_append] at hslash
    have hname : hasSuffix "/" name = true := List.isSuffixOf_iff_suffix.mpr
      (List.suffix_of_suffix_length_le hslash (List.suffix_append _ _) hshort)
    rw [h.file] at hname
    cases hname

/-- Every source whose digest moves between two trees is among the changed sources of a
derivable classification of their diff. -/
theorem changedSources_complete {inputs : ClassifyInputs D} {old : TreeIndex}
    {changed unmatched : List String} (h : classify inputs = .derivable changed unmatched)
    (hdiff : IsRawDiff inputs.diff old inputs.tree) {package name : String}
    (hname : IsSourceName package name) {hash : TargetHash D}
    (hhash : inputs.base.hashes["//" ++ (package ++ ":" ++ name)]? = some hash)
    (hkind : hash.kind = "SourceFile") {seed : List UInt8}
    (hdigest : (sourceDigest old ("//" ++ (package ++ ":" ++ name)) seed : D) ≠
      sourceDigest inputs.tree ("//" ++ (package ++ ":" ++ name)) seed) :
    "//" ++ (package ++ ":" ++ name) ∈ changed := by
  obtain ⟨path, hne, hpath⟩ := exists_changed_of_sourceDigest_ne
    (mainRepoPath_target hname.package_plain hname.name_plain) hdigest
  obtain ⟨entry, hentry, rfl⟩ := hdiff.complete path hne
  apply mem_changedSources h hentry
  apply mem_sourceLabelsForPath hhash hkind
  apply (split_prefix_iff '/' _ _).mpr
  rw [hname.directoryStart] at hpath
  exact hpath

/-- An entry whose sources have the given labels. -/
def sourcesBase (labels : List String) : HashFileData Preimage where
  hashes := labels.foldl (fun hashes label =>
    hashes.insert label ⟨"SourceFile", .text "", .text ""⟩) ∅
  partialGraph := some {}

/-- A source that is the directory of the changed file. -/
theorem changedSources_complete_directory :
    classify (oneFileChanged (sourcesBase ["//:p"])) = .derivable ["//:p"] [] ∧
      "//" ++ ("" ++ ":" ++ "p") ∈ ["//:p"] := by
  have hclass : classify (oneFileChanged (sourcesBase ["//:p"])) = .derivable ["//:p"] [] := by
    decide +kernel
  refine ⟨hclass, @changedSources_complete Preimage _ _ (oneFileTree "1") _ _ hclass
    isRawDiff_oneFileDiff "" "p" ⟨by decide, by decide, by decide, by decide⟩
    ⟨"SourceFile", .text "", .text ""⟩ ?_ rfl [] ?_⟩
  · decide +kernel
  · decide +kernel

/-- Labels without a name, with a name that ends in a slash, or with a colon in the package
name a changed path, and are not reported. -/
theorem changedSources_missed :
    classify (oneFileChanged (sourcesBase ["//p:", "//:p/", "//:p:a"])) = .derivable [] ["p/a"] ∧
      IsRawDiff (oneFileChanged (sourcesBase ["//p:", "//:p/", "//:p:a"])).diff (oneFileTree "1")
        (oneFileTree "2") ∧
      ∀ label ∈ ["//p:", "//:p/", "//:p:a"],
        (sourcesBase ["//p:", "//:p/", "//:p:a"]).hashes[label]? =
            some ⟨"SourceFile", .text "", .text ""⟩ ∧
          (sourceDigest (oneFileTree "1") label [] : Preimage) ≠
            sourceDigest (oneFileTree "2") label [] := by
  refine ⟨by decide +kernel, isRawDiff_oneFileDiff, ?_⟩
  decide +kernel

end BazelDiff
