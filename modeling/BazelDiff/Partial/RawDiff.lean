/-
# The raw diff a classification reads

`git diff --raw --no-renames -z` prints two fields for each changed path, both ended by a NUL:
a header with the modes, the objects and the status, and the bytes of the path. The reader
takes the fields in pairs, so every entry has used two of them. An entry's path is text, and a
path outside UTF-8 is read lossily.
-/

import BazelDiff.Lib.LossyText
import BazelDiff.Lib.Outcome
import BazelDiff.Partial.Classify

namespace BazelDiff

open Text Outcome

/-! ## The reader -/

/-- The loop over the fields: a header and a path in each iteration. -/
def parseDiffFields : List (List UInt8) → Result (List DiffEntry)
  | [] => .ok []
  | field :: rest => do
      let header := lossyUtf8 field
      let record ← okOr ("unexpected git diff --raw record: " ++ header) (stripPrefix ":" header)
      let parts := split ' ' record
      let status ← okOr ("unexpected git diff --raw record: :" ++ record)
        ((parts[4]?).bind (·.toList.head?))
      match rest with
      | [] => bail ("git diff --raw record without a path: :" ++ record)
      | path :: rest => do
          let entries ← parseDiffFields rest
          return {
            path := lossyUtf8 path
            status := status
            oldMode := (parts[0]?).getD ""
            newMode := (parts[1]?).getD "" } :: entries

/-- The fields of an output: what stands between the NULs and is not empty. -/
def diffFields (output : List UInt8) : List (List UInt8) :=
  (output.splitOn 0).filter fun field => !field.isEmpty

/-- The entries of a raw diff. -/
def parseDiffRaw (output : List UInt8) : Result (List DiffEntry) :=
  parseDiffFields (diffFields output)

/-! ## The writer -/

/-- A record as git prints it. The path is any bytes but NUL, and the other fields are texts
without the characters that end them. -/
structure RawDiffRecord where
  oldMode : String
  newMode : String
  oldObject : String
  newObject : String
  status : Char
  /-- The score git prints behind some status letters. -/
  score : String
  path : List UInt8
  plain : ∀ field ∈ [oldMode, newMode, oldObject, newObject, String.singleton status ++ score],
    ∀ c ∈ field.toList, c ≠ ' ' ∧ c ≠ '\x00'
  path_nonempty : path ≠ []
  path_plain : (0 : UInt8) ∉ path

namespace RawDiffRecord

/-- The fields of the header. -/
def parts (record : RawDiffRecord) : List String :=
  [record.oldMode, record.newMode, record.oldObject, record.newObject,
    String.singleton record.status ++ record.score]

def header (record : RawDiffRecord) : String :=
  ":" ++ join (String.singleton ' ') record.parts

def render (record : RawDiffRecord) : List UInt8 :=
  utf8 record.header ++ 0 :: (record.path ++ [0])

/-- The entry a record stands for, with its path as text. -/
def entry (record : RawDiffRecord) : DiffEntry where
  path := lossyUtf8 record.path
  status := record.status
  oldMode := record.oldMode
  newMode := record.newMode

/-- A path in UTF-8 is carried as it is. -/
theorem entry_path {record : RawDiffRecord} {text : String} (h : record.path = utf8 text) :
    record.entry.path = text := by
  show lossyUtf8 record.path = text
  rw [h, lossyUtf8_utf8]

theorem split_parts (record : RawDiffRecord) :
    split ' ' (join (String.singleton ' ') record.parts) = record.parts := by
  apply split_join_pieces
  · exact List.cons_ne_nil _ _
  · intro part hpart hspace
    exact (record.plain part hpart ' ' hspace).1 rfl

theorem nul_notMem_header (record : RawDiffRecord) : (0 : UInt8) ∉ utf8 record.header := by
  apply zero_notMem_utf8
  rw [header, String.toList_append, List.mem_append]
  rintro (hcolon | hparts)
  · exact absurd hcolon (by decide)
  · rcases mem_of_mem_join hparts with hspace | ⟨part, hpart, hnul⟩
    · exact absurd hspace (by decide)
    · exact (record.plain part hpart '\x00' hnul).2 rfl

end RawDiffRecord

/-! ## Reading what git writes -/

/-- The fields of an output are those of its records. -/
theorem diffFields_render (records : List RawDiffRecord) :
    diffFields (records.flatMap RawDiffRecord.render) =
      records.flatMap fun record => [utf8 record.header, record.path] := by
  induction records with
  | nil => rfl
  | cons record records ih =>
      have hheader : (!(utf8 record.header).isEmpty) = true := by
        rw [RawDiffRecord.header, utf8_append]
        rfl
      have hpath : (!record.path.isEmpty) = true := by
        simpa using record.path_nonempty
      rw [diffFields] at ih ⊢
      rw [List.flatMap_cons, RawDiffRecord.render, List.append_assoc, List.cons_append,
        List.append_assoc, List.singleton_append, List.splitOn_append_cons_self,
        List.splitOn_append_cons_self, List.splitOn_eq_singleton record.nul_notMem_header,
        List.splitOn_eq_singleton record.path_plain, List.singleton_append, List.singleton_append,
        List.filter_cons, if_pos hheader, List.filter_cons, if_pos hpath, ih]
      rfl

/-- One record is read as its entry, whatever comes after it. -/
theorem parseDiffFields_record (record : RawDiffRecord) (rest : List (List UInt8)) :
    parseDiffFields (utf8 record.header :: record.path :: rest) =
      (parseDiffFields rest >>= fun entries => .ok (record.entry :: entries)) := by
  have hcolon : stripPrefix ":" record.header =
      some (join (String.singleton ' ') record.parts) := by
    rw [stripPrefix_eq_some_iff, RawDiffRecord.header, String.toList_append]
  have hstatus : ((record.parts[4]?).bind (·.toList.head?)) = some record.status := by
    simp [RawDiffRecord.parts]
  rw [parseDiffFields, lossyUtf8_utf8, hcolon, okOr, ok_bind]
  dsimp only
  rw [record.split_parts, hstatus, okOr, ok_bind]
  rfl

/-- What git writes is read back record by record. -/
theorem parseDiffRaw_render (records : List RawDiffRecord) :
    parseDiffRaw (records.flatMap RawDiffRecord.render) =
      .ok (records.map RawDiffRecord.entry) := by
  rw [parseDiffRaw, diffFields_render]
  induction records with
  | nil => rfl
  | cons record records ih =>
      rw [List.flatMap_cons, List.cons_append, List.cons_append, List.nil_append,
        parseDiffFields_record, ih]
      rfl

/-- Every entry has used two fields. -/
theorem length_of_parseDiffFields {fields : List (List UInt8)} {entries : List DiffEntry}
    (h : parseDiffFields fields = .ok entries) : fields.length = 2 * entries.length := by
  induction fields using List.twoStepInduction generalizing entries with
  | nil =>
      cases h
      rfl
  | singleton field =>
      rw [parseDiffFields] at h
      obtain ⟨record, -, h⟩ := bind_eq_ok h
      obtain ⟨status, -, h⟩ := bind_eq_ok h
      cases h
  | cons_cons field path rest ih _ =>
      rw [parseDiffFields] at h
      obtain ⟨record, -, h⟩ := bind_eq_ok h
      obtain ⟨status, -, h⟩ := bind_eq_ok h
      obtain ⟨later, hlater, h⟩ := bind_eq_ok h
      cases h
      rw [List.length_cons, List.length_cons, List.length_cons, ih hlater]
      omega

/-- A raw diff is read without loss: one entry for each record, in order, with its status, its
modes and the text of its path; and whatever is read has two fields for each entry. -/
theorem raw_diffs_parse :
    (∀ records : List RawDiffRecord, parseDiffRaw (records.flatMap RawDiffRecord.render) =
      .ok (records.map RawDiffRecord.entry)) ∧
      (∀ (record : RawDiffRecord) (text : String), record.path = utf8 text →
        record.entry.path = text) ∧
      ∀ (output : List UInt8) (entries : List DiffEntry), parseDiffRaw output = .ok entries →
        (diffFields output).length = 2 * entries.length := by
  refine ⟨parseDiffRaw_render, ?_, ?_⟩
  · intro record text htext
    exact record.entry_path htext
  · intro output entries hread
    exact length_of_parseDiffFields hread

/-- Changes of two files whose names differ in one byte outside UTF-8. -/
def latinDiff : List RawDiffRecord :=
  [⟨"100644", "100644", "a1", "a2", 'M', "", [103, 0x80], by simp, by simp, by decide⟩,
    ⟨"100644", "100644", "b1", "b2", 'M', "", [103, 0x81], by simp, by simp, by decide⟩]

/-- Both are read as one text, which is the path of neither. -/
theorem latin_paths_read_alike :
    (latinDiff.map RawDiffRecord.path).Nodup ∧
      ∃ entry, parseDiffRaw (latinDiff.flatMap RawDiffRecord.render) = .ok [entry, entry] ∧
        ∀ record ∈ latinDiff, utf8 entry.path ≠ record.path := by
  have hlossy : lossyUtf8 [103, 0x81] = lossyUtf8 [103, 0x80] := by
    decide +kernel
  have hentries : latinDiff.map RawDiffRecord.entry =
      [⟨lossyUtf8 [103, 0x80], 'M', "100644", "100644"⟩,
        ⟨lossyUtf8 [103, 0x81], 'M', "100644", "100644"⟩] := rfl
  rw [hlossy] at hentries
  refine ⟨by decide, ⟨lossyUtf8 [103, 0x80], 'M', "100644", "100644"⟩, ?_, ?_⟩
  · rw [parseDiffRaw_render, hentries]
  · decide +kernel

end BazelDiff
