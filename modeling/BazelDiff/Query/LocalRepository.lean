/-
# The content hash of a local repository

A `local_repository` is hashed by the regular files below its directory, in the order of
their paths: the path, NUL, the content, NUL. A path holds no NUL, but a content may, so
what the hash sees of a tree are the pieces between NULs and not which of them are paths.
-/

import BazelDiff.Lib.Digest
import BazelDiff.Query.Repositories

namespace BazelDiff

open Text HashFunction Delimited

/-- One entry of a directory walk, with its path below the root of the walk and what reading
it gives. -/
structure WalkEntry where
  path : String
  isFile : Bool
  content : Option (List UInt8)
  deriving DecidableEq

/-- The directories of a machine. A walk is in whatever order the disk has, without the entries
it could not look at. -/
structure LocalDisk where
  isDir : String → Bool
  walk : String → List WalkEntry

/-- The last component of a path. -/
def fileName (path : String) : Option String :=
  (UnixPath.pieces path).getLast?

/-- The regular files of a walk, without lock files. -/
def hashedFiles (walk : List WalkEntry) : List WalkEntry :=
  walk.filter fun entry => entry.isFile ∧ fileName entry.path ≠ some "MODULE.bazel.lock"

/-- The files of a walk in the order of their paths. -/
def orderedFiles (walk : List WalkEntry) : List WalkEntry :=
  (hashedFiles walk).insertionSort fun a b => UnixPath.sortKey a.path ≤ UnixPath.sortKey b.path

/-- The bytes one file contributes; a file that cannot be read has none. -/
def fileRecord (entry : WalkEntry) : Option (List UInt8) :=
  entry.content.map fun content => utf8 entry.path ++ [0] ++ content ++ [0]

/-- The directory of a `local_repository`. -/
def localRepositoryRoot (repository : Repository) (workspace : String) : Option String := do
  guard (repository.repoRuleName = some "local_repository")
  let attr ← repository.attributes.find? fun attr => attr.name = "path"
  let path ← attr.stringValue
  return if UnixPath.isAbsolute path then path else UnixPath.join workspace path

/-- The hash of what a local repository holds; `none` for any other repository, for one whose
directory is missing, and when a file cannot be read. -/
def localRepositoryContentHash (D : Type) [HashFunction D] (disk : LocalDisk)
    (repository : Repository) (workspace : String) : Option String := do
  let root ← localRepositoryRoot repository workspace
  guard (disk.isDir root)
  let records ← (orderedFiles (disk.walk root)).mapM fileRecord
  return Hex.encode (bytes (digest records.flatten : D))

/-! ## Directory trees -/

/-- A walk of a directory whose files can be read. Paths are told apart by their components,
and a file name holds no NUL. -/
structure LocalTree where
  walk : List WalkEntry
  readable : ∀ entry ∈ hashedFiles walk, entry.content.isSome
  distinct : ((hashedFiles walk).map fun entry => UnixPath.sortKey entry.path).Nodup
  named : ∀ entry ∈ hashedFiles walk, '\x00' ∉ entry.path.toList

/-- The tree lies where a local repository has its directory. -/
structure LocalTree.LiesAt (tree : LocalTree) (disk : LocalDisk) (repository : Repository)
    (workspace root : String) : Prop where
  root_eq : localRepositoryRoot repository workspace = some root
  isDir : disk.isDir root = true
  walk_eq : disk.walk root = tree.walk

namespace LocalTree

variable (tree tree' : LocalTree)

/-- A tree as a map from the paths of its regular files to their contents, but for the files that
Bazel locks its modules with. -/
def contentAt (path : String) : Option (List UInt8) :=
  if fileName path = some "MODULE.bazel.lock" then none
  else (tree.walk.find? fun entry => entry.isFile ∧ entry.path = path).bind (·.content)

/-- The map is that of the files that are hashed. -/
theorem contentAt_eq (path : String) : tree.contentAt path =
    ((hashedFiles tree.walk).find? fun entry => entry.path = path).bind (·.content) := by
  rw [contentAt]
  split_ifs with hlock
  · have hnone : (hashedFiles tree.walk).find? (fun entry => entry.path = path) = none := by
      rw [List.find?_eq_none]
      rintro entry hentry hpath
      obtain ⟨-, hname⟩ := of_decide_eq_true (List.mem_filter.mp hentry).2
      exact hname (of_decide_eq_true hpath ▸ hlock)
    rw [hnone]
    rfl
  · rw [hashedFiles, List.find?_filter]
    congr 2
    funext entry
    by_cases hpath : entry.path = path
    · simp [hpath, hlock]
    · simp [hpath]

/-- The files with their contents, in the order of the paths. -/
def files : List (String × List UInt8) :=
  (orderedFiles tree.walk).map fun entry => (entry.path, entry.content.getD [])

/-- What lies between two NULs of a listing: the paths, and the pieces of the contents. -/
def pieces : List (List UInt8) :=
  tree.files.flatMap fun file => utf8 file.1 :: file.2.splitOn 0

/-- Different trees whose listings have the same pieces. -/
def Regrouped : Prop :=
  tree.contentAt ≠ tree'.contentAt ∧ tree.pieces = tree'.pieces

theorem mem_orderedFiles {walk : List WalkEntry} {entry : WalkEntry} :
    entry ∈ orderedFiles walk ↔ entry ∈ hashedFiles walk :=
  (List.perm_insertionSort _ _).mem_iff

/-- The listing is strictly in order. -/
theorem files_ascending :
    tree.files.Pairwise fun a b => UnixPath.sortKey a.1 < UnixPath.sortKey b.1 := by
  have hsorted : (orderedFiles tree.walk).Pairwise fun a b =>
      UnixPath.sortKey a.path ≤ UnixPath.sortKey b.path :=
    List.pairwise_insertionSort _ _
  have hnodup : ((orderedFiles tree.walk).map fun entry => UnixPath.sortKey entry.path).Nodup :=
    ((List.perm_insertionSort _ _).map _).nodup_iff.mpr tree.distinct
  rw [files, List.pairwise_map]
  have hne := List.pairwise_map.mp hnodup
  exact (hsorted.and hne).imp fun h => lt_of_le_of_ne h.1 h.2

theorem mem_files {file : String × List UInt8} :
    file ∈ tree.files ↔
      ∃ entry ∈ hashedFiles tree.walk, entry.path = file.1 ∧ entry.content = some file.2 := by
  rw [files, List.mem_map]
  constructor
  · rintro ⟨entry, hmem, rfl⟩
    have hfile := mem_orderedFiles.mp hmem
    refine ⟨entry, hfile, rfl, ?_⟩
    obtain ⟨content, hcontent⟩ := Option.isSome_iff_exists.mp (tree.readable entry hfile)
    rw [hcontent]
    rfl
  · rintro ⟨entry, hfile, hpath, hcontent⟩
    refine ⟨entry, mem_orderedFiles.mpr hfile, ?_⟩
    rw [hpath, hcontent]
    rfl

/-- The map holds what the listing lists. -/
theorem contentAt_eq_some_iff {path : String} {content : List UInt8} :
    tree.contentAt path = some content ↔ (path, content) ∈ tree.files := by
  rw [mem_files, contentAt_eq, Option.bind_eq_some_iff]
  constructor
  · rintro ⟨entry, hfind, hcontent⟩
    exact ⟨entry, List.mem_of_find?_eq_some hfind, by simpa using List.find?_some hfind, hcontent⟩
  · rintro ⟨entry, hfile, hpath, hcontent⟩
    refine ⟨entry, ?_, hcontent⟩
    have hunique : ∀ other ∈ hashedFiles tree.walk, other.path = path → other = entry := by
      intro other hother heq
      exact List.inj_on_of_nodup_map tree.distinct hother hfile (by rw [heq, hpath])
    cases hfind : (hashedFiles tree.walk).find? fun entry => entry.path = path with
    | none =>
        have hnone := List.find?_eq_none.mp hfind entry hfile
        exact absurd hpath (by simpa using hnone)
    | some other =>
        have hpath' : other.path = path := by simpa using List.find?_some hfind
        rw [hunique other (List.mem_of_find?_eq_some hfind) hpath']

/-- Trees are equal as maps exactly when their listings are. -/
theorem contentAt_eq_iff : tree.contentAt = tree'.contentAt ↔ tree.files = tree'.files := by
  constructor
  · intro h
    have hmem : ∀ file, file ∈ tree.files ↔ file ∈ tree'.files := by
      rintro ⟨path, content⟩
      rw [← contentAt_eq_some_iff, ← contentAt_eq_some_iff, h]
    have hirrefl : ∀ t : LocalTree, t.files.Nodup := fun t =>
      t.files_ascending.imp fun hlt heq => absurd (heq ▸ hlt) (lt_irrefl _)
    have hperm := (List.perm_ext_iff_of_nodup (hirrefl tree) (hirrefl tree')).mpr hmem
    apply hperm.eq_of_pairwise _ tree.files_ascending tree'.files_ascending
    intro a b _ _ hlt hgt
    exact absurd hgt (lt_asymm hlt)
  · intro h
    funext path
    apply Option.ext
    intro content
    rw [contentAt_eq_some_iff, contentAt_eq_some_iff, h]

/-- The bytes that are hashed. -/
def listing : List UInt8 :=
  tree.files.flatMap fun file => utf8 file.1 ++ 0 :: file.2 ++ [0]

theorem zero_notMem_path {file : String × List UInt8} (h : file ∈ tree.files) :
    0 ∉ utf8 file.1 := by
  obtain ⟨entry, hfile, hpath, _⟩ := tree.mem_files.mp h
  exact zero_notMem_utf8 (hpath ▸ tree.named entry hfile)

/-- Between its NULs a listing has the pieces of the tree, and nothing after the last one. -/
theorem splitOn_listing : tree.listing.splitOn 0 = tree.pieces ++ [[]] := by
  have hlist : ∀ files : List (String × List UInt8), (∀ file ∈ files, 0 ∉ utf8 file.1) →
      (files.flatMap fun file => utf8 file.1 ++ 0 :: file.2 ++ [0]).splitOn 0 =
        (files.flatMap fun file => utf8 file.1 :: file.2.splitOn 0) ++ [[]] := by
    intro files hfiles
    induction files with
    | nil => rfl
    | cons file rest ih =>
        have hpath : (utf8 file.1).splitOn 0 = [utf8 file.1] :=
          List.splitOn_eq_singleton (hfiles file List.mem_cons_self)
        rw [List.flatMap_cons, List.flatMap_cons, List.append_assoc, List.append_assoc,
          List.cons_append, List.splitOn_append_cons_self, hpath, List.singleton_append,
          List.singleton_append, List.splitOn_append_cons_self,
          ih fun other hother => hfiles other (List.mem_cons_of_mem _ hother)]
        simp
  exact hlist tree.files fun file hfile => tree.zero_notMem_path hfile

theorem listing_eq_iff : tree.listing = tree'.listing ↔ tree.pieces = tree'.pieces := by
  constructor
  · intro h
    have hsplit := congrArg (List.splitOn 0) h
    rw [splitOn_listing, splitOn_listing] at hsplit
    exact List.append_cancel_right hsplit
  · intro h
    have hsplit : tree.listing.splitOn 0 = tree'.listing.splitOn 0 := by
      rw [splitOn_listing, splitOn_listing, h]
    have hjoin := congrArg (List.intercalate [0]) hsplit
    rwa [List.intercalate_splitOn, List.intercalate_splitOn] at hjoin

/-- Without a NUL in a content a file has two pieces. -/
theorem pieces_of_text (h : ∀ file ∈ tree.files, 0 ∉ file.2) :
    tree.pieces = tree.files.flatMap fun file => [utf8 file.1, file.2] := by
  apply List.flatMap_congr
  intro file hfile
  rw [List.splitOn_eq_singleton (h file hfile)]

theorem selfDelimiting_pair :
    SelfDelimiting (fun file : String × List UInt8 => [utf8 file.1, file.2]) fun _ => True := by
  have hinjective : Function.Injective
      fun file : String × List UInt8 => [utf8 file.1, file.2] := by
    rintro ⟨path, content⟩ ⟨path', content'⟩ h
    obtain ⟨hpath, hcontent⟩ := List.cons.inj h
    exact Prod.ext (utf8_injective hpath) (List.singleton_inj.mp hcontent)
  exact @SelfDelimiting.fixed _ _ _ _ 2 hinjective fun _ _ => rfl

/-- Trees without a NUL in a content are never regrouped. -/
theorem not_regrouped_of_text (h : ∀ file ∈ tree.files, 0 ∉ file.2)
    (h' : ∀ file ∈ tree'.files, 0 ∉ file.2) : ¬ tree.Regrouped tree' := by
  rintro ⟨hne, hpieces⟩
  rw [tree.pieces_of_text h, tree'.pieces_of_text h'] at hpieces
  have hfiles := selfDelimiting_pair.flatMap_inj (fun _ _ => List.cons_ne_nil _ _)
    (fun _ _ => trivial) (fun _ _ => trivial) hpieces
  exact hne ((tree.contentAt_eq_iff tree').mpr hfiles)

/-- Every file of a tree can be read, so all of them are hashed. -/
theorem mapM_fileRecord :
    (orderedFiles tree.walk).mapM fileRecord =
      some (tree.files.map fun file => utf8 file.1 ++ 0 :: file.2 ++ [0]) := by
  have hlist : ∀ entries : List WalkEntry, (∀ entry ∈ entries, entry.content.isSome) →
      entries.mapM fileRecord = some (entries.map fun entry =>
        utf8 entry.path ++ 0 :: entry.content.getD [] ++ [0]) := by
    intro entries hentries
    induction entries with
    | nil => rfl
    | cons entry rest ih =>
        obtain ⟨content, hcontent⟩ :=
          Option.isSome_iff_exists.mp (hentries entry List.mem_cons_self)
        have hrecord : fileRecord entry = some (utf8 entry.path ++ 0 :: content ++ [0]) := by
          rw [fileRecord, hcontent, Option.map_some, List.append_assoc (utf8 entry.path)]
          rfl
        rw [List.mapM_cons, hrecord,
          ih fun other hother => hentries other (List.mem_cons_of_mem _ hother), List.map_cons,
          hcontent]
        rfl
  rw [hlist _ fun entry hentry => tree.readable entry (mem_orderedFiles.mp hentry), files,
    List.map_map]
  rfl

variable {tree tree'}

/-- What the hash of a repository is, read off the tree in its directory. -/
theorem LiesAt.content_hash {D : Type} [HashFunction D] {disk : LocalDisk}
    {repository : Repository} {workspace root : String}
    (h : tree.LiesAt disk repository workspace root) :
    localRepositoryContentHash D disk repository workspace =
      some (Hex.encode (bytes (digest tree.listing : D))) := by
  rw [localRepositoryContentHash, h.root_eq]
  simp only [Option.bind_eq_bind, Option.bind_some, h.isDir, guard_true, h.walk_eq,
    mapM_fileRecord]
  rfl

end LocalTree

/-- **The hash of a local repository tells two trees apart unless one is the other regrouped at
its NULs.** -/
theorem content_hash_sees_tree_iff {D : Type} [HashFunction D]
    (hinjective : Function.Injective (digest : List UInt8 → D)) {disk disk' : LocalDisk}
    {repository repository' : Repository} {workspace workspace' root root' : String}
    {tree tree' : LocalTree} (htree : tree.LiesAt disk repository workspace root)
    (htree' : tree'.LiesAt disk' repository' workspace' root') :
    (localRepositoryContentHash D disk repository workspace =
        localRepositoryContentHash D disk' repository' workspace' ↔
      tree.contentAt = tree'.contentAt) ↔ ¬ tree.Regrouped tree' := by
  have hhash : localRepositoryContentHash D disk repository workspace =
      localRepositoryContentHash D disk' repository' workspace' ↔ tree.pieces = tree'.pieces := by
    rw [htree.content_hash, htree'.content_hash, Option.some_inj, Hex.encode_injective.eq_iff,
      bytes_injective.eq_iff, hinjective.eq_iff, LocalTree.listing_eq_iff]
  have hsame : tree.contentAt = tree'.contentAt → tree.pieces = tree'.pieces := by
    intro h
    rw [LocalTree.pieces, (tree.contentAt_eq_iff tree').mp h]
    rfl
  rw [hhash, LocalTree.Regrouped]
  constructor
  · rintro h ⟨hne, hpieces⟩
    exact hne (h.mp hpieces)
  · intro h
    refine ⟨fun hpieces => ?_, hsame⟩
    by_contra hne
    exact h ⟨hne, hpieces⟩

/-- A repository whose directory is `vendored`. -/
def vendored : Repository where
  repoRuleName := some "local_repository"
  attributes := [{ name := "path", stringValue := some "vendored" }]

/-- A disk with one directory. -/
def diskWith (walk : List WalkEntry) : LocalDisk where
  isDir path := path = "/w/vendored"
  walk _ := walk

def fileEntry (path content : String) : WalkEntry :=
  { path, isFile := true, content := some (utf8 content) }

/-- Two files. -/
def separateFiles : LocalTree where
  walk := [fileEntry "b" "y", fileEntry "a" "x"]
  readable := by decide +kernel
  distinct := by decide +kernel
  named := by decide +kernel

def oneFile : LocalTree where
  walk := [fileEntry "a" "x"]
  readable := by decide +kernel
  distinct := by decide +kernel
  named := by decide +kernel

/-- One file that holds what a listing of the two files holds after its path. -/
def joinedFile : LocalTree where
  walk := [fileEntry "a" "x\x00b\x00y"]
  readable := by decide +kernel
  distinct := by decide +kernel
  named := by decide +kernel

theorem LocalTree.liesAt_vendored (tree : LocalTree) :
    tree.LiesAt (diskWith tree.walk) vendored "/w" "/w/vendored" where
  root_eq := by decide +kernel
  isDir := by simp [diskWith]
  walk_eq := rfl

/-- Texts alone are told apart. -/
theorem content_hash_sees_tree_iff_text :
    localRepositoryContentHash Preimage (diskWith separateFiles.walk) vendored "/w" =
        localRepositoryContentHash Preimage (diskWith oneFile.walk) vendored "/w" ↔
      separateFiles.contentAt = oneFile.contentAt := by
  apply (content_hash_sees_tree_iff Preimage.digest_injective (LocalTree.liesAt_vendored _)
    (LocalTree.liesAt_vendored _)).mpr
  exact LocalTree.not_regrouped_of_text _ _ (by decide +kernel) (by decide +kernel)

/-- The two files and the one file have one hash. -/
theorem content_hash_misses_joined_file :
    ¬ (localRepositoryContentHash Preimage (diskWith separateFiles.walk) vendored "/w" =
        localRepositoryContentHash Preimage (diskWith joinedFile.walk) vendored "/w" ↔
      separateFiles.contentAt = joinedFile.contentAt) := by
  intro h
  have hsame : separateFiles.contentAt = joinedFile.contentAt := h.mp (by decide +kernel)
  exact absurd (congrFun hsame "b") (by decide +kernel)

end BazelDiff
