/-
# What a source digest says about a tree

A source digest covers what the tree shows at the label's path: the entry there, or else
everything below it, or else that there is nothing. The five cases go through one hasher
without lengths. They are told apart by their last bytes, and the records of a directory
by a terminator no path contains and by the one width of object ids. So two trees give
one label the same digest exactly when they show the same thing.
-/

import BazelDiff.Lib.Delimited
import BazelDiff.Partial.Tree

namespace BazelDiff

open Text HashFunction Delimited

/-! ## Entries below a directory -/

namespace TreeIndex

/-- The paths between a directory's start and its end start with it. -/
theorem exists_relative {start path : String} {last : Char} (hle : start ≤ path)
    (hlt : path < start ++ String.singleton last) :
    start ++ String.ofList (path.toList.drop start.toList.length) = path := by
  rw [String.le_iff_toList_le] at hle
  rw [String.lt_iff_toList_lt, String.toList_append, String.toList_singleton] at hlt
  obtain ⟨rest, hrest⟩ := prefix_of_between (not_lt.mpr hle) hlt
  rw [← String.toList_inj, String.toList_append, String.toList_ofList, ← hrest,
    List.drop_left]

theorem le_lastChar (c : Char) : c ≤ Char.ofNat 0x10FFFF := by
  show c.val.toNat ≤ 0x10FFFF
  rcases c.valid with h | h
  · have : c.val.toNat < 0xd800 := h
    omega
  · have : c.val.toNat < 0x110000 := h.2
    omega

/-- What `under` returns: the entries below the directory whose relative path does not start
with the last character of all. -/
theorem mem_under {tree : TreeIndex} {directory relative : String} {entry : TreeEntry} :
    (relative, entry) ∈ tree.under directory ↔
      tree.get (directoryStart directory ++ relative) = some entry ∧
        Char.ofNat 0x10FFFF ∉ relative.toList.head? := by
  rw [under, List.mem_map, get]
  constructor
  · rintro ⟨⟨path, entry'⟩, hmem, heq⟩
    obtain ⟨hmem, hrange⟩ := List.mem_filter.mp hmem
    rw [decide_eq_true_eq] at hrange
    obtain ⟨rfl, rfl⟩ := Prod.mk.inj heq
    have hpath := exists_relative hrange.1 hrange.2
    constructor
    · rw [hpath]
      exact Std.ExtTreeMap.mem_toList_iff_getElem?_eq_some.mp hmem
    · intro hhead
      obtain ⟨rest, hrest⟩ := List.head?_eq_some_iff.mp hhead
      have hlt := hrange.2
      rw [← hpath, String.lt_iff_toList_lt, String.toList_append, String.toList_append, hrest,
        String.toList_singleton, ← List.singleton_append, ← List.append_assoc] at hlt
      exact List.not_lt.mpr (List.IsPrefix.le (List.prefix_append _ rest)) hlt
  · rintro ⟨hget, hhead⟩
    have hbelow : ∀ c ∈ relative.toList.head?, c < Char.ofNat 0x10FFFF := by
      intro c hc
      apply lt_of_le_of_ne
      · exact le_lastChar c
      · rintro rfl
        exact hhead hc
    obtain ⟨hle, hlt⟩ := between_append (directoryStart directory).toList hbelow
    refine ⟨(directoryStart directory ++ relative, entry), List.mem_filter.mpr ⟨?_, ?_⟩, ?_⟩
    · exact Std.ExtTreeMap.mem_toList_iff_getElem?_eq_some.mpr hget
    · rw [decide_eq_true_eq, String.le_iff_toList_le, String.lt_iff_toList_lt]
      simp only [String.toList_append, String.toList_singleton]
      exact ⟨not_lt.mp hle, hlt⟩
    · simp

/-- For paths without the last character, all entries below the directory. -/
theorem mem_under_iff {tree : TreeIndex}
    (hpaths : ∀ path ∈ tree.entries, Char.ofNat 0x10FFFF ∉ path.toList) {directory relative : String}
    {entry : TreeEntry} :
    (relative, entry) ∈ tree.under directory ↔
      tree.get (directoryStart directory ++ relative) = some entry := by
  rw [mem_under, and_iff_left_iff_imp]
  intro hget hhead
  apply hpaths _ (Std.ExtTreeMap.mem_iff_isSome_getElem?.mpr (by rw [← get, hget]; rfl))
  rw [String.toList_append]
  exact List.mem_append_right _ (List.mem_of_mem_head? hhead)

/-- Trees that agree below a directory list the same entries there. -/
theorem under_congr {tree tree' : TreeIndex} {directory : String}
    (h : ∀ relative, tree.get (directoryStart directory ++ relative) =
      tree'.get (directoryStart directory ++ relative)) :
    tree.under directory = tree'.under directory := by
  have hfilter : ∀ (entries : StringMap TreeEntry) (keep : String → Bool),
      entries.toList.filter (fun entry => keep entry.1) =
        (entries.filter fun path _ => keep path).toList := by
    intro entries keep
    rw [Std.ExtTreeMap.toList_filter]
  rw [under, under, hfilter tree.entries fun path => decide (directoryStart directory ≤ path ∧
      path < directoryStart directory ++ String.singleton (Char.ofNat 0x10FFFF)),
    hfilter tree'.entries fun path => decide (directoryStart directory ≤ path ∧
      path < directoryStart directory ++ String.singleton (Char.ofNat 0x10FFFF))]
  congr 2
  apply Std.ExtTreeMap.ext_getElem?
  intro path
  rw [Std.ExtTreeMap.getElem?_filter', Std.ExtTreeMap.getElem?_filter']
  by_cases hrange : directoryStart directory ≤ path ∧
      path < directoryStart directory ++ String.singleton (Char.ofNat 0x10FFFF)
  · have hget := h (String.ofList (path.toList.drop (directoryStart directory).toList.length))
    rw [exists_relative hrange.1 hrange.2, get, get] at hget
    rw [hget]
  · have hnone : ∀ entry : Option TreeEntry, entry.filter (fun _ => false) = none := by
      intro entry
      cases entry with
      | none => rfl
      | some entry => rfl
    simp only [decide_eq_false hrange, hnone]

end TreeIndex

/-! ## The bytes of an entry -/

/-- An object id: hexadecimal, of the given length. -/
def IsObjectId (width : Nat) (object : String) : Prop :=
  object.toList.length = width ∧ ∀ c ∈ object.toList, (Hex.value c).isSome = true

/-- A tree as git lists it: no path has a NUL or the last character of all, and the object
ids have one length. -/
def Listed (width : Nat) (tree : TreeIndex) : Prop :=
  ∀ path entry, tree.get path = some entry → '\x00' ∉ path.toList ∧
    Char.ofNat 0x10FFFF ∉ path.toList ∧ IsObjectId width entry.object

theorem Listed.paths {width : Nat} {tree : TreeIndex} (h : Listed width tree) :
    ∀ path ∈ tree.entries, Char.ofNat 0x10FFFF ∉ path.toList := by
  intro path hpath
  obtain ⟨entry, hentry⟩ := Option.isSome_iff_exists.mp
    (Std.ExtTreeMap.mem_iff_isSome_getElem?.mp hpath)
  exact (h path entry hentry).2.1

theorem toNat_le_of_hex {c : Char} (h : (Hex.value c).isSome = true) : c.toNat ≤ 127 := by
  have hbound : ∀ d : Char, c ≤ d → d.toNat ≤ 127 → c.toNat ≤ 127 :=
    fun d hle hd => le_trans hle hd
  rw [Hex.value] at h
  split_ifs at h with h1 h2 h3
  · exact hbound '9' h1.2 (by decide)
  · exact hbound 'f' h2.2 (by decide)
  · exact hbound 'F' h3.2 (by decide)
  · cases h

theorem length_utf8_objectId {width : Nat} {object : String} (h : IsObjectId width object) :
    (utf8 object).length = width := by
  rw [length_utf8_of_ascii fun c hc => toNat_le_of_hex (h.2 c hc), h.1]

/-- The tag after the object. -/
def kindTag : TreeKind → List UInt8
  | .file executable => [1, if executable then 1 else 0]
  | .symlink => [3]
  | .submodule => [4]

theorem updateEntry_eq (entry : TreeEntry) :
    updateEntry entry = utf8 entry.object ++ kindTag entry.kind := by
  rcases entry with ⟨object, kind⟩
  cases kind with
  | file executable => rfl
  | symlink => rfl
  | submodule => rfl

theorem kindTag_selfDelimiting : SelfDelimiting kindTag fun _ => True := by
  rintro ((_ | _) | _ | _) ((_ | _) | _ | _) rest rest' - - h
  all_goals simp_all [kindTag]

theorem kindTag_getLast?_injective : Function.Injective fun kind => (kindTag kind).getLast? := by
  rintro ((_ | _) | _ | _) ((_ | _) | _ | _) h
  all_goals simp_all [kindTag]

theorem getLast?_updateEntry (entry : TreeEntry) :
    (updateEntry entry).getLast? = (kindTag entry.kind).getLast? := by
  rcases entry with ⟨object, (_ | _) | _ | _⟩
  all_goals simp [updateEntry, kindTag]

/-- The record of one entry below a directory. -/
def directoryRecord (entry : String × TreeEntry) : List UInt8 :=
  utf8 entry.1 ++ [0] ++ updateEntry entry.2 ++ [0]

/-- A record ends where its path has ended and its object and tag are over. -/
theorem directoryRecord_selfDelimiting (width : Nat) :
    SelfDelimiting directoryRecord fun entry =>
      '\x00' ∉ entry.1.toList ∧ IsObjectId width entry.2.object := by
  have hpath : SelfDelimiting (fun path => utf8 path ++ [0]) fun path => '\x00' ∉ path.toList :=
    .terminated utf8_injective fun _ hpath => zero_notMem_utf8 hpath
  have hobject : SelfDelimiting utf8 (IsObjectId width) :=
    .fixed utf8_injective fun _ hobject => length_utf8_objectId hobject
  intro entry entry' rest rest' hentry hentry' h
  simp only [directoryRecord, updateEntry_eq] at h
  have hfields := hpath.append (hobject.append kindTag_selfDelimiting)
    (entry.1, entry.2.object, entry.2.kind) (entry'.1, entry'.2.object, entry'.2.kind)
    (0 :: rest) (0 :: rest') ⟨hentry.1, hentry.2, trivial⟩ ⟨hentry'.1, hentry'.2, trivial⟩
    (by simpa using h)
  rcases entry with ⟨path, object, kind⟩
  rcases entry' with ⟨path', object', kind'⟩
  obtain ⟨hsame, hrest⟩ := hfields
  simp only [Prod.mk.injEq] at hsame
  obtain ⟨rfl, rfl, rfl⟩ := hsame
  exact ⟨rfl, (List.cons.inj hrest).2⟩

/-! ## The three shapes -/

/-- The last bytes tell entries apart from each other. -/
theorem updateEntry_injective : Function.Injective updateEntry := by
  intro entry entry' h
  have hlast := congrArg List.getLast? h
  rw [getLast?_updateEntry, getLast?_updateEntry] at hlast
  have hkind : entry.kind = entry'.kind := kindTag_getLast?_injective hlast
  rw [updateEntry_eq, updateEntry_eq, hkind] at h
  have hobject : entry.object = entry'.object := utf8_injective (List.append_cancel_right h)
  rcases entry with ⟨object, kind⟩
  rcases entry' with ⟨object', kind'⟩
  cases hkind
  cases hobject
  rfl

theorem updateEntry_ne_absent (entry : TreeEntry) : updateEntry entry ≠ [0] := by
  intro h
  have hreversed := congrArg List.reverse h
  rcases entry with ⟨object, (_ | _) | _ | _⟩
  all_goals simp [updateEntry] at hreversed

theorem updateEntry_ne_directory (entry : TreeEntry) (front : List UInt8) :
    updateEntry entry ≠ front ++ [2] := by
  intro h
  have hlast := congrArg List.getLast? h
  rcases entry with ⟨object, (_ | _) | _ | _⟩
  all_goals simp [updateEntry] at hlast

section Content

variable {D : Type} [HashFunction D]

/-- The content at a path without an entry. -/
theorem treeContent_of_none {tree : TreeIndex} {path : String} (h : tree.get path = none) :
    treeContent D tree path =
      if (tree.under path).isEmpty then [0]
      else bytes (digest ((tree.under path).flatMap directoryRecord) : D) ++ [2] := by
  rw [treeContent, h]
  rfl

/-- An entry is neither a directory nor nothing. -/
theorem updateEntry_ne_of_none (entry : TreeEntry) {tree : TreeIndex} {path : String}
    (h : tree.get path = none) : updateEntry entry ≠ treeContent D tree path := by
  rw [treeContent_of_none h]
  intro heq
  split at heq
  · exact updateEntry_ne_absent entry heq
  · exact updateEntry_ne_directory entry _ heq

/-- Without an entry, the content determines what is below. -/
theorem under_eq_of_content (hinjective : Function.Injective (digest : List UInt8 → D))
    {width : Nat} {tree tree' : TreeIndex} (htree : Listed width tree)
    (htree' : Listed width tree') {path : String} (hnone : tree.get path = none)
    (hnone' : tree'.get path = none)
    (h : treeContent D tree path = treeContent D tree' path) :
    tree.under path = tree'.under path := by
  have hrecords : ∀ tree : TreeIndex, Listed width tree → ∀ entry ∈ tree.under path,
      '\x00' ∉ entry.1.toList ∧ IsObjectId width entry.2.object := by
    rintro tree htree ⟨relative, entry⟩ hentry
    have hget := (TreeIndex.mem_under_iff htree.paths).mp hentry
    obtain ⟨hnul, -, hobject⟩ := htree _ _ hget
    refine ⟨fun hmem => hnul ?_, hobject⟩
    rw [String.toList_append]
    exact List.mem_append_right _ hmem
  rw [treeContent_of_none hnone, treeContent_of_none hnone'] at h
  split at h
  · next hempty =>
      split at h
      · next hempty' => rw [List.isEmpty_iff.mp hempty, List.isEmpty_iff.mp hempty']
      · have := congrArg List.getLast? h
        simp at this
  · split at h
    · have := congrArg List.getLast? h
      simp at this
    · have hdigest := hinjective (bytes_injective (List.append_cancel_right h))
      apply (directoryRecord_selfDelimiting width).flatMap_inj _ (hrecords tree htree)
        (hrecords tree' htree') hdigest
      intro entry _ hnil
      simp [directoryRecord] at hnil

end Content

/-! ## Source digests -/

/-- Two trees show the same thing at a path: the same entry, or no entry and the same
entries below it. -/
def SameView (tree tree' : TreeIndex) (path : String) : Prop :=
  tree.get path = tree'.get path ∧
    (tree.get path = none → ∀ relative,
      tree.get (TreeIndex.directoryStart path ++ relative) =
        tree'.get (TreeIndex.directoryStart path ++ relative))

variable {D : Type} [HashFunction D]

theorem treeContent_congr {tree tree' : TreeIndex} {path : String} (h : SameView tree tree' path) :
    treeContent D tree path = treeContent D tree' path := by
  cases hentry : tree.get path with
  | some entry => rw [treeContent, treeContent, ← h.1, hentry]
  | none =>
      rw [treeContent_of_none hentry, treeContent_of_none (h.1 ▸ hentry),
        TreeIndex.under_congr (h.2 hentry)]

theorem sameView_of_content (hinjective : Function.Injective (digest : List UInt8 → D))
    {width : Nat} {tree tree' : TreeIndex} (htree : Listed width tree)
    (htree' : Listed width tree') {path : String}
    (h : treeContent D tree path = treeContent D tree' path) : SameView tree tree' path := by
  cases hentry : tree.get path with
  | some entry =>
      cases hentry' : tree'.get path with
      | some entry' =>
          rw [treeContent, treeContent, hentry, hentry'] at h
          refine ⟨?_, fun hnone => ?_⟩
          · rw [hentry, hentry', updateEntry_injective h]
          · rw [hentry] at hnone
            cases hnone
      | none =>
          rw [treeContent, hentry] at h
          exact absurd h (updateEntry_ne_of_none entry hentry')
  | none =>
      cases hentry' : tree'.get path with
      | some entry' =>
          rw [treeContent.eq_def D tree', hentry'] at h
          exact absurd h.symm (updateEntry_ne_of_none entry' hentry)
      | none =>
          have hunder := under_eq_of_content hinjective htree htree' hentry hentry' h
          refine ⟨hentry.trans hentry'.symm, fun _ relative => ?_⟩
          apply Option.ext
          intro entry
          rw [← TreeIndex.mem_under_iff htree.paths, ← TreeIndex.mem_under_iff htree'.paths, hunder]

/-- Two trees give a main-repository label the same source digest exactly when they show the
same thing at its path. -/
theorem sourceDigest_eq_iff (hinjective : Function.Injective (digest : List UInt8 → D))
    {width : Nat} {tree tree' : TreeIndex} (htree : Listed width tree)
    (htree' : Listed width tree') {label path : String} (hpath : mainRepoPath label = some path)
    (seed : List UInt8) :
    (sourceDigest tree label seed : D) = sourceDigest tree' label seed ↔
      SameView tree tree' path := by
  rw [sourceDigest, sourceDigest, hpath]
  constructor
  · intro h
    have hcontent := hinjective h
    rw [List.append_assoc, List.append_assoc] at hcontent
    exact sameView_of_content hinjective htree htree' (List.append_cancel_right hcontent)
  · intro h
    show (digest (treeContent D tree path ++ seed ++ utf8 label) : D) =
      digest (treeContent D tree' path ++ seed ++ utf8 label)
    rw [treeContent_congr h]

/-- A tree with one file in a directory. -/
def directoryTree (object : String) : TreeIndex :=
  ⟨(∅ : StringMap TreeEntry).insert "pkg/dir/one" ⟨object, .file false⟩, none⟩

theorem directoryTree_listed {object : String} (h : IsObjectId 2 object) :
    Listed 2 (directoryTree object) := by
  intro path entry hget
  rw [TreeIndex.get, directoryTree, Std.ExtTreeMap.getElem?_insert] at hget
  split at hget
  · next heq =>
      rw [compare_eq_iff_eq] at heq
      subst heq
      obtain rfl : (⟨object, .file false⟩ : TreeEntry) = entry := by simpa using hget
      exact ⟨by decide, by decide, h⟩
  · simp at hget

/-- A directory's digest moves when the content of a file in it does. -/
theorem directory_digest_moves :
    ((sourceDigest (directoryTree "d1") "//pkg:dir" [7] : Preimage) =
        sourceDigest (directoryTree "d2") "//pkg:dir" [7] ↔
      SameView (directoryTree "d1") (directoryTree "d2") "pkg/dir") ∧
    ¬ SameView (directoryTree "d1") (directoryTree "d2") "pkg/dir" := by
  refine ⟨sourceDigest_eq_iff Preimage.digest_injective (directoryTree_listed ?_)
    (directoryTree_listed ?_) (by decide +kernel) [7], ?_⟩
  · exact ⟨rfl, List.all_eq_true.mp rfl⟩
  · exact ⟨rfl, List.all_eq_true.mp rfl⟩
  · intro h
    have hfile := h.2 (by decide +kernel) "one"
    revert hfile
    decide +kernel

end BazelDiff
