/-
# The listing a tree index is read from

`git ls-tree -r -z` prints one record for each tracked path: a mode, a type and an object id,
then a tab, then the bytes of the path up to a NUL. The index is keyed by text, so a path is
read lossily. An index has one entry for each record exactly when no two of their paths read
alike: always for paths in UTF-8, and not for paths that differ only in bytes outside it.
-/

import BazelDiff.Lib.Delimited
import BazelDiff.Lib.LossyText
import BazelDiff.Partial.Tree
import Mathlib.Data.Finset.Card

namespace BazelDiff

open Text

/-! ## The reader -/

/-- What a record's mode and type make of its path. Trees and unknown modes are skipped. -/
def treeKind (mode objectType : String) : Option TreeKind :=
  if objectType = "blob" then
    if mode = "100644" ∨ mode = "100664" then some (.file false)
    else if mode = "100755" then some (.file true)
    else if mode = "120000" then some .symlink
    else none
  else if mode = "160000" ∧ objectType = "commit" then some .submodule
  else none

/-- The entry a record's fields describe. -/
def parseMetadata (metadata : String) : Option TreeEntry :=
  match split ' ' metadata with
  | mode :: objectType :: object :: _ =>
      (treeKind mode objectType).map fun kind => ⟨object, kind⟩
  | _ => none

/-- One record: its path as text and its entry. -/
def parseRecord (record : List UInt8) : Option (String × TreeEntry) :=
  match cutList [9] record with
  | none => none
  | some (metadata, path) =>
      (parseMetadata (lossyUtf8 metadata)).map fun entry => (lossyUtf8 path, entry)

/-- The index of a listing. A record takes the place of an earlier one of the same path. -/
def TreeIndex.parseLsTree (output : List UInt8) : TreeIndex :=
  ⟨Std.ExtTreeMap.ofList
    (((output.splitOn 0).filter fun record => !record.isEmpty).filterMap parseRecord) compare, none⟩

def TreeIndex.len (tree : TreeIndex) : Nat :=
  tree.entries.size

/-! ## The writer -/

/-- The modes of what a tree lists. -/
inductive ListedMode
  | regular
  | groupWritable
  | executable
  | symlink
  | submodule
  deriving DecidableEq

namespace ListedMode

def mode : ListedMode → String
  | regular => "100644"
  | groupWritable => "100664"
  | executable => "100755"
  | symlink => "120000"
  | submodule => "160000"

def objectType : ListedMode → String
  | submodule => "commit"
  | _ => "blob"

def kind : ListedMode → TreeKind
  | regular => .file false
  | groupWritable => .file false
  | executable => .file true
  | symlink => .symlink
  | submodule => .submodule

theorem treeKind_eq (listed : ListedMode) :
    treeKind listed.mode listed.objectType = some listed.kind := by
  cases listed <;> decide

end ListedMode

/-- A tracked path as git lists it. The path is any bytes but NUL, and an object id
is a text without the characters that end it. -/
structure LsTreeRecord where
  listed : ListedMode
  object : String
  path : List UInt8
  object_plain : ∀ c ∈ object.toList, c ≠ ' ' ∧ c ≠ '\t' ∧ c ≠ '\x00'
  path_plain : (0 : UInt8) ∉ path

namespace LsTreeRecord

def entry (record : LsTreeRecord) : TreeEntry :=
  ⟨record.object, record.listed.kind⟩

/-- The text the index files the path under. -/
def pathText (record : LsTreeRecord) : String :=
  lossyUtf8 record.path

def metadata (record : LsTreeRecord) : String :=
  record.listed.mode ++ " " ++ record.listed.objectType ++ " " ++ record.object

/-- The record without the NUL that ends it. -/
def body (record : LsTreeRecord) : List UInt8 :=
  utf8 record.metadata ++ 9 :: record.path

def render (record : LsTreeRecord) : List UInt8 :=
  record.body ++ [0]

end LsTreeRecord

/-! ## Reading what git writes -/

theorem split_metadata (record : LsTreeRecord) :
    split ' ' record.metadata =
      [record.listed.mode, record.listed.objectType, record.object] := by
  have hspace : (" " : String) = String.singleton ' ' := rfl
  have hmode : ' ' ∉ record.listed.mode.toList := by
    cases record.listed <;> decide
  have htype : ' ' ∉ record.listed.objectType.toList := by
    cases record.listed <;> decide
  have hobject : ' ' ∉ record.object.toList := fun hmem => (record.object_plain ' ' hmem).1 rfl
  rw [LsTreeRecord.metadata, hspace, split_append_singleton, split_append_singleton,
    split_eq_singleton hmode, split_eq_singleton htype, split_eq_singleton hobject]
  rfl

/-- The characters of a record's metadata are those of its fields, and spaces. -/
theorem notMem_metadata {record : LsTreeRecord} {c : Char} (hspace : c ≠ ' ')
    (hmode : c ∉ record.listed.mode.toList) (htype : c ∉ record.listed.objectType.toList)
    (hobject : c ∉ record.object.toList) : c ∉ record.metadata.toList := by
  simp [LsTreeRecord.metadata, hspace, hmode, htype, hobject]

theorem tab_notMem_metadata (record : LsTreeRecord) : (9 : UInt8) ∉ utf8 record.metadata := by
  intro hmem
  apply @notMem_metadata record '\t' (by decide)
  · cases record.listed <;> decide
  · cases record.listed <;> decide
  · exact fun hobject => (record.object_plain '\t' hobject).2.1 rfl
  · exact @mem_of_ascii_mem_utf8 record.metadata '\t' (by decide) hmem

theorem nul_notMem_body (record : LsTreeRecord) : (0 : UInt8) ∉ record.body := by
  have hmetadata : (0 : UInt8) ∉ utf8 record.metadata := by
    apply zero_notMem_utf8
    apply notMem_metadata (by decide)
    · cases record.listed <;> decide
    · cases record.listed <;> decide
    · exact fun hobject => (record.object_plain '\x00' hobject).2.2 rfl
  rw [LsTreeRecord.body, List.mem_append, List.mem_cons]
  rintro (hmem | hmem | hmem)
  · exact hmetadata hmem
  · exact absurd hmem (by decide)
  · exact record.path_plain hmem

theorem parseRecord_body (record : LsTreeRecord) :
    parseRecord record.body = some (record.pathText, record.entry) := by
  have hentry : parseMetadata record.metadata = some record.entry := by
    rw [parseMetadata, split_metadata]
    show (treeKind record.listed.mode record.listed.objectType).map _ = _
    rw [ListedMode.treeKind_eq]
    rfl
  rw [parseRecord, LsTreeRecord.body, cutList_append_cons (tab_notMem_metadata record)]
  show (parseMetadata (lossyUtf8 (utf8 record.metadata))).map _ = _
  rw [lossyUtf8_utf8, hentry]
  rfl

/-- The pieces between the NULs of a listing are its records. -/
theorem records_of_render (records : List LsTreeRecord) :
    ((records.flatMap LsTreeRecord.render).splitOn 0).filter (fun record => !record.isEmpty) =
      records.map LsTreeRecord.body := by
  induction records with
  | nil => rfl
  | cons record records ih =>
      have hbody : (!record.body.isEmpty) = true := by simp [LsTreeRecord.body]
      rw [List.flatMap_cons, LsTreeRecord.render, List.append_assoc, List.singleton_append,
        List.splitOn_append_cons_self, List.splitOn_eq_singleton (nul_notMem_body record),
        List.singleton_append, List.filter_cons, if_pos hbody, ih, List.map_cons]

/-- The index of what git writes files every record's entry under its path's text. -/
theorem parseLsTree_render (records : List LsTreeRecord) :
    TreeIndex.parseLsTree (records.flatMap LsTreeRecord.render) =
      ⟨Std.ExtTreeMap.ofList (records.map fun record => (record.pathText, record.entry)) compare,
        none⟩ := by
  have hrecord : (fun record => parseRecord (LsTreeRecord.body record)) =
      fun record => some (record.pathText, record.entry) := funext parseRecord_body
  rw [TreeIndex.parseLsTree, records_of_render, List.filterMap_map, Function.comp_def, hrecord,
    List.filterMap_eq_map']

/-! ## One entry for each record -/

/-- An index lists the records: one entry for each, with its object and kind. -/
def TreeIndex.ListsEach (tree : TreeIndex) (records : List LsTreeRecord) : Prop :=
  tree.len = records.length ∧
    ∀ record ∈ records, tree.get record.pathText = some record.entry

/-- Different paths of a listing are read as different texts. -/
def ReadApart (records : List LsTreeRecord) : Prop :=
  ∀ record ∈ records, ∀ other ∈ records,
    lossyUtf8 record.path = lossyUtf8 other.path → record.path = other.path

theorem readApart_iff_nodup {records : List LsTreeRecord}
    (hpaths : (records.map LsTreeRecord.path).Nodup) :
    ReadApart records ↔ (records.map LsTreeRecord.pathText).Nodup := by
  have htexts : records.map LsTreeRecord.pathText =
      (records.map LsTreeRecord.path).map lossyUtf8 := by
    rw [List.map_map]
    rfl
  rw [htexts]
  constructor
  · intro hapart
    apply hpaths.map_on
    intro path hpath path' hpath' heq
    obtain ⟨record, hrecord, rfl⟩ := List.mem_map.mp hpath
    obtain ⟨other, hother, rfl⟩ := List.mem_map.mp hpath'
    exact hapart record hrecord other hother heq
  · intro hnodup record hrecord other hother heq
    exact List.inj_on_of_nodup_map hnodup (List.mem_map_of_mem hrecord)
      (List.mem_map_of_mem hother) heq

/-- An index has the texts of the paths as its keys. -/
theorem mem_parseLsTree {records : List LsTreeRecord} {path : String} :
    path ∈ (TreeIndex.parseLsTree (records.flatMap LsTreeRecord.render)).entries ↔
      path ∈ records.map LsTreeRecord.pathText := by
  rw [parseLsTree_render, Std.ExtTreeMap.mem_ofList, List.contains_iff_mem, List.map_map]
  rfl

/-- An index has as many entries as records only when the texts of their paths differ. -/
theorem nodup_of_len {records : List LsTreeRecord}
    (hlen : (TreeIndex.parseLsTree (records.flatMap LsTreeRecord.render)).len = records.length) :
    (records.map LsTreeRecord.pathText).Nodup := by
  let entries := (TreeIndex.parseLsTree (records.flatMap LsTreeRecord.render)).entries
  have hkeys : entries.keys.Nodup := Std.ExtTreeMap.nodup_keys
  have hsubset : entries.keys ⊆ records.map LsTreeRecord.pathText := by
    intro path hpath
    exact mem_parseLsTree.mp (Std.ExtTreeMap.mem_keys.mp hpath)
  have hlength : (records.map LsTreeRecord.pathText).length ≤ entries.keys.length := by
    rw [List.length_map, Std.ExtTreeMap.length_keys]
    exact le_of_eq hlen.symm
  exact ((hkeys.subperm hsubset).perm_of_length_le hlength).nodup_iff.mp hkeys

theorem listsEach_of_nodup {records : List LsTreeRecord}
    (h : (records.map LsTreeRecord.pathText).Nodup) :
    (TreeIndex.parseLsTree (records.flatMap LsTreeRecord.render)).ListsEach records := by
  have hdistinct : (records.map fun record => (record.pathText, record.entry)).Pairwise
      fun a b => ¬ compare a.1 b.1 = .eq := by
    apply List.pairwise_map.mpr
    apply (List.pairwise_map.mp h).imp
    intro record other hne heq
    exact hne (compare_eq_iff_eq.mp heq)
  rw [parseLsTree_render]
  constructor
  · show (Std.ExtTreeMap.ofList _ compare).size = _
    rw [Std.ExtTreeMap.size_ofList hdistinct, List.length_map]
  · intro record hrecord
    show (Std.ExtTreeMap.ofList _ compare)[_]? = _
    apply Std.ExtTreeMap.getElem?_ofList_of_mem _ hdistinct
    · exact List.mem_map_of_mem hrecord
    · exact compare_eq_iff_eq.mpr rfl

/-- A listing of different paths keeps every record exactly when they are read apart. -/
theorem parseLsTree_listsEach_iff (records : List LsTreeRecord)
    (hpaths : (records.map LsTreeRecord.path).Nodup) :
    (TreeIndex.parseLsTree (records.flatMap LsTreeRecord.render)).ListsEach records ↔
      ReadApart records := by
  rw [readApart_iff_nodup hpaths]
  constructor
  · intro hlists
    exact nodup_of_len hlists.1
  · intro hnodup
    exact listsEach_of_nodup hnodup

/-- Two file names that differ in one byte outside UTF-8. -/
def latinRecords : List LsTreeRecord :=
  [⟨.regular, "a1", [102, 0x80], by simp, by decide⟩,
    ⟨.executable, "b2", [102, 0x81], by simp, by decide⟩]

/-- One of two tracked files is missing from the index. -/
theorem latinRecords_folded :
    (latinRecords.map LsTreeRecord.path).Nodup ∧
      (TreeIndex.parseLsTree (latinRecords.flatMap LsTreeRecord.render)).len = 1 ∧
      ¬ (TreeIndex.parseLsTree (latinRecords.flatMap LsTreeRecord.render)).ListsEach
        latinRecords := by
  have hlen : (TreeIndex.parseLsTree (latinRecords.flatMap LsTreeRecord.render)).len = 1 := by
    decide +kernel
  refine ⟨by decide, hlen, ?_⟩
  intro hlists
  exact absurd (hlists.1.symm.trans hlen) (by decide)

theorem latinRecords_listsEach_iff :
    (latinRecords.map LsTreeRecord.path).Nodup ∧
      ((TreeIndex.parseLsTree (latinRecords.flatMap LsTreeRecord.render)).ListsEach latinRecords ↔
        ReadApart latinRecords) := by
  have hpaths : (latinRecords.map LsTreeRecord.path).Nodup := by decide
  exact ⟨hpaths, parseLsTree_listsEach_iff latinRecords hpaths⟩

/-! ## What a folded path hides -/

end BazelDiff
