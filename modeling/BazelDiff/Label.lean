/-
# Labels, configured keys and the paths they name

A target is known by its label. Under `cquery` the same label can be analyzed in
several configurations, and each instance is known by the key `label|checksum`.
Main-repository labels also name workspace paths.
-/

import BazelDiff.Lib.UnixPath

namespace BazelDiff

open Text

/-- `CONFIGURED_SEPARATOR`: between a label and the checksum of its configuration. -/
def configuredSeparator : Char := '|'

def configuredKey (label checksum : String) : String :=
  label ++ "|" ++ checksum

def isAsciiHexdigit (c : Char) : Bool :=
  ('0' ≤ c && c ≤ '9') || ('a' ≤ c && c ≤ 'f') || ('A' ≤ c && c ≤ 'F')

/-- Splits a configured identity into its label and configuration checksum. Bazel
allows `|` in target names, so the suffix only counts as a checksum when it looks
like one: non-empty and hexadecimal. -/
def splitConfigured (key : String) : String × Option String :=
  match rsplitOnce configuredSeparator key with
  | some (label, checksum) =>
      if checksum ≠ "" ∧ checksum.toList.all isAsciiHexdigit = true then (label, some checksum)
      else (key, none)
  | none => (key, none)

/-- The label of a configured identity, or the input unchanged when it is a bare label. -/
def targetLabel (key : String) : String :=
  (splitConfigured key).1

def isMainRepo (label : String) : Bool :=
  hasPrefix "//" label || hasPrefix "@//" label || hasPrefix "@@//" label

/-- The text of a main-repository label after its repository marker. -/
def mainRepoBody (label : String) : Option String :=
  (stripPrefix "@@//" label).or <| (stripPrefix "@//" label).or <| stripPrefix "//" label

/-- The workspace path a main-repository label names. -/
def mainRepoPath (label : String) : Option String :=
  (mainRepoBody label).map fun body => replaceChar ':' '/' (trimStart ':' body)

/-- The main-repository path a source label names, for callers that map the other way. -/
def labelPath (label : String) : Option String :=
  mainRepoPath (targetLabel label)

def labelPackage (label : String) : String :=
  match rsplitOnce ':' label with
  | some (package, _) => package
  | none => label

/-- The path of a label's target part inside an external repository. -/
def externalLabelPath (target : String) : String :=
  replaceChar ':' '/' (trimStart ':' target)

/-- The path of a package's file: below the package, and at the root when that is empty. -/
def targetPath (package name : String) : String :=
  if package = "" then name else package ++ "/" ++ name

/-- A label with a package and a target name names the file of that name in the package. -/
theorem replaceChar_trimStart_target {package name : String} (hpackage : ':' ∉ package.toList)
    (hname : ':' ∉ name.toList) :
    replaceChar ':' '/' (trimStart ':' (package ++ ":" ++ name)) = targetPath package name := by
  have hcolon : (":" : String) = String.singleton ':' := rfl
  rw [targetPath]
  split_ifs with hempty
  · rw [hempty, String.empty_append, hcolon, trimStart_singleton_append,
      trimStart_of_notMem hname, replaceChar_of_notMem hname]
  · obtain ⟨first, rest, hfirst⟩ : ∃ first rest, package.toList = first :: rest := by
      apply List.exists_cons_of_ne_nil
      exact fun hnil => hempty (String.toList_inj.mp hnil)
    have hlist : (package ++ ":" ++ name).toList = first :: (rest ++ ':' :: name.toList) := by
      simp [hfirst]
    have hne : first ≠ ':' := by
      rintro rfl
      exact hpackage (by simp [hfirst])
    have hslash : replaceChar ':' '/' ":" = "/" := by decide
    rw [trimStart_of_head hlist hne, replaceChar_append, replaceChar_append,
      replaceChar_of_notMem hpackage, replaceChar_of_notMem hname, hslash]

theorem mainRepoPath_target {package name : String} (hpackage : ':' ∉ package.toList)
    (hname : ':' ∉ name.toList) :
    mainRepoPath ("//" ++ (package ++ ":" ++ name)) = some (targetPath package name) := by
  have hbody : mainRepoBody ("//" ++ (package ++ ":" ++ name)) = some (package ++ ":" ++ name) := by
    rw [mainRepoBody, Option.or_eq_some_iff, Option.or_eq_some_iff]
    refine Or.inr ⟨?_, Or.inr ⟨?_, ?_⟩⟩
    · simp [stripPrefix, List.isPrefixOf?]
    · simp [stripPrefix, List.isPrefixOf?]
    · rw [stripPrefix_eq_some_iff, String.toList_append]
  rw [mainRepoPath, hbody, Option.map_some, replaceChar_trimStart_target hpackage hname]

theorem splitConfigured_cases (key : String) :
    (∃ label checksum, key.toList = label.toList ++ '|' :: checksum.toList ∧ checksum ≠ "" ∧
      (∀ c ∈ checksum.toList, isAsciiHexdigit c = true) ∧
      splitConfigured key = (label, some checksum)) ∨
    splitConfigured key = (key, none) := by
  rw [splitConfigured]
  cases hcut : rsplitOnce configuredSeparator key with
  | none => exact Or.inr rfl
  | some cut =>
      obtain ⟨label, checksum⟩ := cut
      dsimp only
      split_ifs with hhex
      · exact Or.inl ⟨label, checksum, (rsplitOnce_eq_some hcut).1, hhex.1,
          List.all_eq_true.mp hhex.2, rfl⟩
      · exact Or.inr rfl

theorem targetLabel_of_notMem {key : String} (h : '|' ∉ key.toList) : targetLabel key = key := by
  rcases splitConfigured_cases key with ⟨label, checksum, hkey, -⟩ | heq
  · exact absurd (hkey ▸ List.mem_append_right _ List.mem_cons_self) h
  · rw [targetLabel, heq]

/-- A key is either its own label or strictly longer than it. -/
theorem targetLabel_eq_or_length_lt (key : String) :
    targetLabel key = key ∨ (targetLabel key).toList.length < key.toList.length := by
  rcases splitConfigured_cases key with ⟨label, checksum, hkey, -, -, heq⟩ | heq
  · refine Or.inr ?_
    have hlabel : targetLabel key = label := by rw [targetLabel, heq]
    rw [hlabel, hkey, List.length_append, List.length_cons]
    omega
  · exact Or.inl (by rw [targetLabel, heq])

theorem isMainRepo_iff_mainRepoPath (label : String) :
    isMainRepo label = true ↔ (mainRepoPath label).isSome = true := by
  simp only [isMainRepo, mainRepoPath, mainRepoBody, Option.isSome_map, Option.isSome_or,
    stripPrefix_isSome, Bool.or_eq_true]
  tauto

end BazelDiff
