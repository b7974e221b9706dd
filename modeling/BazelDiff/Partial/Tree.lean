/-
# The git tree as the only view of source content

Partial-graph hashing never reads the working tree: file content is a blob id, the
executable bit is a mode, a directory is the set of entries below it. This module
holds the tree index and the source digests taken from it.
-/

import BazelDiff.Label
import BazelDiff.Lib.Digest
import Std.Data.ExtTreeMap
import Std.Data.ExtTreeSet

namespace BazelDiff

open Text HashFunction

/-- A map keyed by strings and iterated in key order, for Rust's `BTreeMap` and for a
`HashMap` whose iteration order is never observed. -/
abbrev StringMap (V : Type) := Std.ExtTreeMap String V compare

/-- A set of strings iterated in order. -/
abbrev StringSet := Std.ExtTreeSet String compare

theorem mem_foldl_insert (items : List String) (set : StringSet) (item : String) :
    item ∈ items.foldl (·.insert ·) set ↔ item ∈ set ∨ item ∈ items := by
  induction items generalizing set with
  | nil => simp
  | cons first rest ih =>
      rw [List.foldl_cons, ih, Std.ExtTreeSet.mem_insert, List.mem_cons,
        Std.LawfulEqOrd.compare_eq_iff_eq, eq_comm (a := first)]
      tauto

/-- What a tracked path is at a revision, from its `git ls-tree` mode. -/
inductive TreeKind
  | file (executable : Bool)
  | symlink
  | submodule
  deriving DecidableEq

structure TreeEntry where
  /-- The object id: a blob for files and symlinks, a commit for submodules. -/
  object : String
  kind : TreeKind
  deriving DecidableEq

/-- Every tracked path of one revision. -/
structure TreeIndex where
  entries : StringMap TreeEntry
  /-- The tree object's id, when the index was listed from one. -/
  id : Option String
  deriving DecidableEq

namespace TreeIndex

def get (tree : TreeIndex) (path : String) : Option TreeEntry :=
  tree.entries[path]?

/-- The text every path below `directory` starts with. -/
def directoryStart (directory : String) : String :=
  if directory = "" ∨ hasSuffix "/" directory then directory else directory ++ "/"

/-- The entries below `directory`, in path order, keyed by their path relative to it. -/
def under (tree : TreeIndex) (directory : String) : List (String × TreeEntry) :=
  let start := directoryStart directory
  let stop := start ++ String.singleton (Char.ofNat 0x10FFFF)
  (tree.entries.toList.filter fun entry => start ≤ entry.1 ∧ entry.1 < stop).map
    fun entry => (String.ofList (entry.1.toList.drop start.toList.length), entry.2)

/-- Paths of the symlinks in the tree. -/
def symlinks (tree : TreeIndex) : List String :=
  (tree.entries.toList.filter fun entry => entry.2.kind = .symlink).map (·.1)

/-- The `{path: blob}` map `--contentHashPath` accepts: every blob, no submodules. -/
def contentHashes (tree : TreeIndex) : StringMap String :=
  tree.entries.toList.foldl
    (fun hashes entry =>
      if entry.2.kind = .submodule then hashes else hashes.insert entry.1 entry.2.object) ∅

end TreeIndex

/-- The bytes `update_entry` feeds for one tree entry. -/
def updateEntry (entry : TreeEntry) : List UInt8 :=
  utf8 entry.object ++
    match entry.kind with
    | .file executable => [1, if executable then 1 else 0]
    | .symlink => [3]
    | .submodule => [4]

variable {D : Type} [HashFunction D]

/-- What a tree shows at a path, as the bytes a source digest starts with: the entry
there, or else the digest of everything below it, or else nothing. -/
def treeContent (D : Type) [HashFunction D] (tree : TreeIndex) (path : String) : List UInt8 :=
  match tree.get path with
  | some entry => updateEntry entry
  | none =>
      let below := tree.under path
      if below.isEmpty then [0]
      else
        bytes (digest (below.flatMap fun entry =>
          utf8 entry.1 ++ [0] ++ updateEntry entry.2 ++ [0]) : D) ++ [2]

/-- The digest of a source label at a revision, from the tree alone. A label outside
the main repository is the digest of nothing. -/
def sourceDigest (tree : TreeIndex) (label : String) (seed : List UInt8) : D :=
  match mainRepoPath label with
  | none => digest []
  | some path => digest (treeContent D tree path ++ seed ++ utf8 label)

/-- The digest of a main-repository file that is not a target, or `none` when the
label does not name a tracked file. -/
def softDigest (tree : TreeIndex) (label : String) : Option D :=
  if !isMainRepo label then none
  else
    match mainRepoPath label with
    | none => none
    | some path =>
        match tree.get path with
        | none => none
        | some entry =>
            if entry.kind = .submodule then none else some (sourceDigest tree label [])

/-- Whether a soft digest exists is a question about the entry at the label's path. -/
theorem softDigest_isSome (tree : TreeIndex) (label : String) :
    (softDigest tree label : Option D).isSome = true ↔
      ∃ path entry, mainRepoPath label = some path ∧ tree.get path = some entry ∧
        entry.kind ≠ .submodule := by
  have hmain := isMainRepo_iff_mainRepoPath label
  rw [softDigest]
  cases hpath : mainRepoPath label with
  | none => simp [hpath] at hmain ⊢
  | some path =>
      have hlabel : isMainRepo label = true := hmain.mpr (by simp [hpath])
      cases hentry : tree.get path with
      | none => simp [hlabel, hentry]
      | some entry =>
          by_cases hkind : entry.kind = .submodule
          · simp [hlabel, hentry, hkind]
          · simp [hlabel, hentry, hkind]

/-- A soft digest depends on nothing but the entry at the label's path. -/
theorem softDigest_congr {tree tree' : TreeIndex} {label : String}
    (h : ∀ path, mainRepoPath label = some path → tree.get path = tree'.get path) :
    (softDigest tree label : Option D) = softDigest tree' label := by
  rw [softDigest, softDigest]
  cases hpath : mainRepoPath label with
  | none => rfl
  | some path =>
      have hget := h path hpath
      cases hentry : tree'.get path with
      | none => simp [hget, hentry]
      | some entry =>
          by_cases hkind : entry.kind = .submodule
          · simp [hget, hentry, hkind]
          · simp [hget, hentry, hkind, sourceDigest, hpath, treeContent]

end BazelDiff
