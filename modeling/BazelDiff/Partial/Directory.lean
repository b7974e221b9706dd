/-
# Listing a directory of a tree

A directory of the index is a range of its keys: from the text every path below starts with to
that text followed by the last character there is. The range has every path below the
directory and nothing beside it, but for the paths that go on with that character: the upper
bound is not above them, and the listing leaves them out.
-/

import BazelDiff.Partial.TreeView

namespace BazelDiff

open Text

namespace TreeIndex

/-- A listing of everything below a directory: in path order, each path once, keyed by what
follows the directory in it. -/
structure ListsBelow (tree : TreeIndex) (directory : String)
    (listing : List (String × TreeEntry)) : Prop where
  ordered : listing.Pairwise fun first second =>
    directoryStart directory ++ first.1 < directoryStart directory ++ second.1
  exact : ∀ relative entry, (relative, entry) ∈ listing ↔
    tree.get (directoryStart directory ++ relative) = some entry

/-- The listing follows the order of the paths. -/
theorem under_ordered (tree : TreeIndex) (directory : String) :
    (tree.under directory).Pairwise fun first second =>
      directoryStart directory ++ first.1 < directoryStart directory ++ second.1 := by
  have hsorted : tree.entries.toList.Pairwise fun first second => first.1 < second.1 := by
    apply Std.ExtTreeMap.ordered_keys_toList.imp
    intro first second hlt
    exact compare_lt_iff_lt.mp hlt
  rw [under]
  apply List.pairwise_map.mpr
  apply (hsorted.sublist List.filter_sublist).imp_of_mem
  rintro ⟨path, entry⟩ ⟨path', entry'⟩ hmem hmem' hlt
  have hrange := (List.mem_filter.mp hmem).2
  have hrange' := (List.mem_filter.mp hmem').2
  rw [decide_eq_true_eq] at hrange hrange'
  rw [exists_relative hrange.1 hrange.2, exists_relative hrange'.1 hrange'.2]
  exact hlt

/-- What every path below the directory that the listing leaves out starts with. -/
def rangeEnd (directory : String) : String :=
  directoryStart directory ++ String.singleton (Char.ofNat 0x10FFFF)

/-- A path goes on with the last character exactly when it starts with the end of the range. -/
theorem hasPrefix_rangeEnd (directory relative : String) :
    hasPrefix (rangeEnd directory) (directoryStart directory ++ relative) = true ↔
      Char.ofNat 0x10FFFF ∈ relative.toList.head? := by
  rw [hasPrefix_iff, rangeEnd, String.toList_append, String.toList_append,
    String.toList_singleton, Option.mem_def, List.head?_eq_some_iff]
  apply exists_congr
  intro rest
  rw [List.append_assoc, List.append_cancel_left_eq, List.singleton_append]

/-- The listing of a directory is exact, unless a tracked path below the directory goes on with
the last character of all. -/
theorem under_exact_iff (tree : TreeIndex) (directory : String) :
    tree.ListsBelow directory (tree.under directory) ↔
      ∀ path ∈ tree.entries, hasPrefix (rangeEnd directory) path = false := by
  constructor
  · intro hlists path hpath
    rw [← Bool.not_eq_true]
    intro hprefix
    obtain ⟨rest, hrest⟩ := (hasPrefix_iff _ _).mp hprefix
    obtain ⟨entry, hentry⟩ := Option.isSome_iff_exists.mp
      (Std.ExtTreeMap.mem_iff_isSome_getElem?.mp hpath)
    have hpath' : path = directoryStart directory ++
        String.ofList (Char.ofNat 0x10FFFF :: rest) := by
      rw [← String.toList_inj, hrest, rangeEnd, String.toList_append, String.toList_append,
        String.toList_singleton, String.toList_ofList, List.append_assoc]
      rfl
    have hmem := (hlists.exact _ entry).mpr (by rw [← hpath']; exact hentry)
    apply (mem_under.mp hmem).2
    rw [String.toList_ofList]
    rfl
  · intro hpaths
    constructor
    · exact under_ordered tree directory
    · intro relative entry
      rw [mem_under, and_iff_left_iff_imp]
      intro hget hhead
      have hmem := Std.ExtTreeMap.mem_iff_isSome_getElem?.mpr
        (show (tree.entries[directoryStart directory ++ relative]?).isSome = true by
          rw [← get, hget]; rfl)
      have hprefix := (hasPrefix_rangeEnd directory relative).mpr hhead
      rw [hpaths _ hmem] at hprefix
      cases hprefix

/-- A tree with one file in a directory, whose name is the last character. -/
def lastNameTree : TreeIndex :=
  ⟨Std.ExtTreeMap.ofList [(rangeEnd "pkg", ⟨"a1", .file false⟩)] compare, none⟩

/-- The file is tracked below its directory, and the directory is listed as empty. -/
theorem last_name_is_left_out :
    hasPrefix "pkg/" (rangeEnd "pkg") = true ∧
      lastNameTree.get (rangeEnd "pkg") = some ⟨"a1", .file false⟩ ∧
      lastNameTree.under "pkg" = [] ∧
      ¬ lastNameTree.ListsBelow "pkg" (lastNameTree.under "pkg") := by
  have hbelow : hasPrefix "pkg/" (rangeEnd "pkg") = true := by
    decide +kernel
  have htracked : lastNameTree.get (rangeEnd "pkg") = some ⟨"a1", .file false⟩ := by
    decide +kernel
  have hempty : lastNameTree.under "pkg" = [] := by
    decide +kernel
  refine ⟨hbelow, htracked, hempty, fun hlists => ?_⟩
  have hmem := (hlists.exact (String.singleton (Char.ofNat 0x10FFFF)) ⟨"a1", .file false⟩).mpr
    htracked
  rw [hempty] at hmem
  cases hmem

end TreeIndex

end BazelDiff
