/-
# Labels in module files

A module file is scanned for label literals without being parsed: every quote in either style
may open one, whatever stands around it. The scan finds exactly the texts that stand between
two quotes of one style, on one line and without that quote, and takes from each the path it
names as a main-repository label.
-/

import BazelDiff.Partial.Classify

namespace BazelDiff

open Text

/-! ## What a literal names -/

/-- How a main-repository label can start. -/
def mainRepoRoots : List String :=
  ["//", "@//", "@@//"]

/-- The piece of a path after its last slash. -/
def IsLastPiece (last path : String) : Prop :=
  '/' ∉ last.toList ∧ (path = last ∨ ∃ front, path = front ++ "/" ++ last)

/-- The path a literal of a module file names, seen from the workspace root. -/
inductive Names : String → String → Prop
  /-- A target of the root package. -/
  | relative (name : String) : Names (":" ++ name) (replaceChar ':' '/' name)
  /-- A target of a package: the colon reads as a slash, unless the package is the root. -/
  | target {root body : String} (hroot : root ∈ mainRepoRoots) (hcolon : ':' ∈ body.toList) :
      Names (root ++ body) (replaceChar ':' '/' (trimStart ':' body))
  /-- A package alone stands for the target of its own name. -/
  | shorthand {root package last : String} (hroot : root ∈ mainRepoRoots)
      (hcolon : ':' ∉ package.toList) (hpackage : package ≠ "") (hlast : IsLastPiece last package) :
      Names (root ++ package) (package ++ "/" ++ last)

theorem baseName_eq_of_isLastPiece {last path : String} (h : IsLastPiece last path) :
    baseName path = last := by
  obtain ⟨hlast, rfl | ⟨front, rfl⟩⟩ := h
  · rw [baseName, split_eq_singleton hlast]
    rfl
  · have hslash : ("/" : String) = String.singleton '/' := rfl
    rw [baseName, hslash, split_append_singleton, split_eq_singleton hlast]
    simp

theorem isLastPiece_baseName (path : String) : IsLastPiece (baseName path) path := by
  have hpiece : ∃ last, IsLastPiece last path := by
    cases hcut : rsplitOnce '/' path with
    | none =>
        refine ⟨path, ?_, Or.inl rfl⟩
        intro hmem
        rw [rsplitOnce, Option.map_eq_none_iff] at hcut
        exact cutLast_ne_none hmem hcut
    | some cut =>
        obtain ⟨hpath, hlast⟩ := rsplitOnce_eq_some hcut
        refine ⟨cut.2, hlast, Or.inr ⟨cut.1, ?_⟩⟩
        rw [← String.toList_inj, hpath]
        simp
  obtain ⟨last, hlast⟩ := hpiece
  rw [baseName_eq_of_isLastPiece hlast]
  exact hlast

theorem mainRepoBody_eq_some_iff {label body : String} :
    mainRepoBody label = some body ↔ ∃ root ∈ mainRepoRoots, label = root ++ body := by
  have hroot : ∀ root, stripPrefix root label = some body ↔ label = root ++ body := by
    intro root
    rw [stripPrefix_eq_some_iff, ← String.toList_inj, String.toList_append]
  have hnone : ∀ root, stripPrefix root label = none ↔ hasPrefix root label = false := by
    intro root
    rw [← stripPrefix_isSome, Option.isSome_eq_false_iff, Option.isNone_iff_eq_none]
  simp only [mainRepoBody, Option.or_eq_some_iff, hroot, hnone, mainRepoRoots, List.mem_cons,
    List.not_mem_nil, or_false, exists_eq_or_imp, exists_eq_left]
  constructor
  · rintro (h | ⟨-, h | ⟨-, h⟩⟩)
    · exact Or.inr (Or.inr h)
    · exact Or.inr (Or.inl h)
    · exact Or.inl h
  · rintro (rfl | rfl | rfl)
    · exact Or.inr ⟨by simp [hasPrefix, List.isPrefixOf], Or.inr ⟨by simp [hasPrefix, List.isPrefixOf], rfl⟩⟩
    · exact Or.inr ⟨by simp [hasPrefix, List.isPrefixOf], Or.inl rfl⟩
    · exact Or.inl rfl

theorem literalPath_relative (name : String) :
    literalPath (":" ++ name) = some (replaceChar ':' '/' name) := by
  have hname : stripPrefix ":" (":" ++ name) = some name := by
    rw [stripPrefix_eq_some_iff, String.toList_append]
  rw [literalPath, hname]

theorem literalPath_root {root : String} (hroot : root ∈ mainRepoRoots) (body : String) :
    literalPath (root ++ body) =
      some (if ':' ∈ body.toList then replaceChar ':' '/' (trimStart ':' body)
        else if body = "" then "" else body ++ "/" ++ baseName body) := by
  have hbody : mainRepoBody (root ++ body) = some body :=
    mainRepoBody_eq_some_iff.mpr ⟨root, hroot, rfl⟩
  have hpath : mainRepoPath (root ++ body) = some (replaceChar ':' '/' (trimStart ':' body)) := by
    rw [mainRepoPath, hbody]
    rfl
  have hmain : isMainRepo (root ++ body) = true := by
    rw [isMainRepo_iff_mainRepoPath, hpath]
    rfl
  have hshape : stripPrefix ":" (root ++ body) = none ∧
      (':' ∈ (root ++ body).toList ↔ ':' ∈ body.toList) := by
    simp only [mainRepoRoots, List.mem_cons, List.not_mem_nil, or_false] at hroot
    rcases hroot with rfl | rfl | rfl
    · simp [stripPrefix, List.isPrefixOf?]
    · simp [stripPrefix, List.isPrefixOf?]
    · simp [stripPrefix, List.isPrefixOf?]
  rw [literalPath, hshape.1]
  show (if isMainRepo (root ++ body) then _ else none) = _
  rw [if_pos hmain, hpath, Option.map_some]
  by_cases hcolon : ':' ∈ body.toList
  · rw [if_pos (hshape.2.mpr hcolon), if_pos hcolon]
  · rw [if_neg fun h => hcolon (hshape.2.mp h), if_neg hcolon, trimStart_of_notMem hcolon,
      replaceChar_of_notMem hcolon]
    split_ifs with hempty
    · rw [hempty]
    · rfl

/-- The scan reads literals the way they name paths. -/
theorem literalPath_eq_some_iff {literal path : String} (hpath : path ≠ "") :
    literalPath literal = some path ↔ Names literal path := by
  constructor
  · intro h
    cases hname : stripPrefix ":" literal with
    | some name =>
        rw [stripPrefix_eq_some_iff, ← String.toList_append, String.toList_inj] at hname
        rw [hname, literalPath_relative, Option.some.injEq] at h
        rw [hname, ← h]
        exact Names.relative name
    | none =>
        cases hbody : mainRepoBody literal with
        | none =>
            have hmain : ¬ isMainRepo literal = true := by
              rw [isMainRepo_iff_mainRepoPath, mainRepoPath, hbody]
              simp
            rw [literalPath, hname] at h
            simp [hmain] at h
        | some body =>
            obtain ⟨root, hroot, rfl⟩ := mainRepoBody_eq_some_iff.mp hbody
            rw [literalPath_root hroot, Option.some.injEq] at h
            split_ifs at h with hcolon hempty
            · rw [← h]
              exact Names.target hroot hcolon
            · exact absurd h.symm hpath
            · rw [← h]
              exact Names.shorthand hroot hcolon hempty (isLastPiece_baseName body)
  · intro h
    cases h with
    | relative name => exact literalPath_relative name
    | target hroot hcolon => rw [literalPath_root hroot, if_pos hcolon]
    | shorthand hroot hcolon hpackage hlast =>
        rw [literalPath_root hroot, if_neg hcolon, if_neg hpackage,
          baseName_eq_of_isLastPiece hlast]

/-! ## Which literals are found -/

/-- A literal stands in a text between two quotes it does not contain, on one line. -/
def Quoted (quote : Char) (literal text : String) : Prop :=
  quote ∉ literal.toList ∧ '\n' ∉ literal.toList ∧
    ∃ before after, text.toList = before ++ quote :: literal.toList ++ quote :: after

/-- What lies before the first quote. -/
theorem takeWhile_append_quote {quote : Char} {front : List Char} (hfront : quote ∉ front)
    (back : List Char) : (front ++ quote :: back).takeWhile (· ≠ quote) = front := by
  have hall : ∀ c ∈ front, decide (c ≠ quote) = true := by
    intro c hc
    rw [decide_eq_true_eq]
    rintro rfl
    exact hfront hc
  rw [List.takeWhile_append_of_pos hall]
  simp

theorem quotedLiterals_complete {quote : Char} {literal : List Char} (hquote : quote ∉ literal)
    (before after : List Char) :
    String.ofList literal ∈ quotedLiterals quote (before ++ quote :: literal ++ quote :: after) := by
  induction before with
  | nil =>
      have hclosed : quote ∈ literal ++ quote :: after := by simp
      rw [List.nil_append, List.cons_append, quotedLiterals, if_pos ⟨rfl, hclosed⟩,
        takeWhile_append_quote hquote]
      exact List.mem_cons_self
  | cons c before ih =>
      rw [List.cons_append, List.cons_append, quotedLiterals]
      split_ifs
      · exact List.mem_cons_of_mem _ ih
      · exact ih

theorem quotedLiterals_sound {quote : Char} {literal : String} {text : List Char}
    (h : literal ∈ quotedLiterals quote text) :
    quote ∉ literal.toList ∧
      ∃ before after, text = before ++ quote :: literal.toList ++ quote :: after := by
  induction text with
  | nil => cases h
  | cons c rest ih =>
      have hrest : literal ∈ quotedLiterals quote rest → quote ∉ literal.toList ∧
          ∃ before after, c :: rest = before ++ quote :: literal.toList ++ quote :: after := by
        intro hmem
        obtain ⟨hplain, before, after, htext⟩ := ih hmem
        exact ⟨hplain, c :: before, after, by rw [htext]; rfl⟩
      rw [quotedLiterals] at h
      split_ifs at h with hquote
      · rcases List.mem_cons.mp h with rfl | hmem
        · obtain ⟨front, back, rfl, hfront⟩ := List.eq_append_cons_of_mem hquote.2
          rw [takeWhile_append_quote hfront, String.toList_ofList]
          exact ⟨hfront, [], back, by rw [hquote.1]; rfl⟩
        · exact hrest hmem
      · exact hrest h

theorem mem_foldl_insertNonempty {items : List String} {set : StringSet} {item : String} :
    item ∈ items.foldl (fun paths path => if path = "" then paths else paths.insert path) set ↔
      item ∈ set ∨ item ∈ items ∧ item ≠ "" := by
  induction items generalizing set with
  | nil => simp
  | cons first rest ih =>
      rw [List.foldl_cons, ih, List.mem_cons]
      split_ifs with hempty
      · have hfirst : item = first → item ≠ "" → False := fun heq hne => hne (heq.trans hempty)
        tauto
      · rw [Std.ExtTreeSet.mem_insert, Std.LawfulEqOrd.compare_eq_iff_eq]
        constructor
        · rintro ((rfl | hmem) | hmem)
          · exact Or.inr ⟨Or.inl rfl, hempty⟩
          · exact Or.inl hmem
          · exact Or.inr ⟨Or.inr hmem.1, hmem.2⟩
        · rintro (hmem | ⟨rfl | hmem, hne⟩)
          · exact Or.inl (Or.inr hmem)
          · exact Or.inl (Or.inl rfl)
          · exact Or.inr ⟨hmem, hne⟩

/-- The scan finds the literals between quotes and nothing else. -/
theorem mem_referencedMainRepoPaths_iff {text path : String} :
    path ∈ referencedMainRepoPaths text ↔ path ≠ "" ∧
      ∃ quote literal, (quote = '"' ∨ quote = '\'') ∧ Quoted quote literal text ∧
        Names literal path := by
  rw [referencedMainRepoPaths, mem_foldl_insertNonempty]
  constructor
  · rintro (hmem | ⟨hmem, hpath⟩)
    · exact absurd hmem Std.ExtTreeSet.not_mem_empty
    · obtain ⟨literal, hliteral, hnames⟩ := List.mem_filterMap.mp hmem
      obtain ⟨hfound, hline⟩ := List.mem_filter.mp hliteral
      obtain ⟨quote, hquote, hfound⟩ := List.mem_flatMap.mp hfound
      obtain ⟨hplain, hstands⟩ := quotedLiterals_sound hfound
      refine ⟨hpath, quote, literal, by simpa using hquote, ⟨hplain, by simpa using hline, hstands⟩,
        (literalPath_eq_some_iff hpath).mp hnames⟩
  · rintro ⟨hpath, quote, literal, hquote, ⟨hplain, hline, before, after, htext⟩, hnames⟩
    refine Or.inr ⟨List.mem_filterMap.mpr ⟨literal, List.mem_filter.mpr ⟨?_, by simpa using hline⟩,
      (literalPath_eq_some_iff hpath).mpr hnames⟩, hpath⟩
    apply List.mem_flatMap.mpr
    refine ⟨quote, by simpa using hquote, ?_⟩
    have hfound := quotedLiterals_complete hplain before after
    rw [String.ofList_toList] at hfound
    rw [htext]
    exact hfound

/-- No label literal of a module file is missed, whatever surrounds it. -/
theorem mem_referencedMainRepoPaths_of_quoted {quote : Char} (hquote : quote = '"' ∨ quote = '\'')
    {literal text path : String} (hquoted : Quoted quote literal text) (hnames : Names literal path)
    (hpath : path ≠ "") : path ∈ referencedMainRepoPaths text :=
  mem_referencedMainRepoPaths_iff.mpr ⟨hpath, quote, literal, hquote, hquoted, hnames⟩

/-- A lock file named after a stray apostrophe and an unbalanced quote of the other style. -/
theorem mem_referencedMainRepoPaths_unbalanced :
    "pip/lock/lock" ∈ referencedMainRepoPaths "# don't \"\nlock = '@@//pip/lock' \"" := by
  have hnames : Names ("@@//" ++ "pip/lock") ("pip/lock" ++ "/" ++ "lock") := by
    apply Names.shorthand
    · decide
    · decide
    · decide
    · exact ⟨by decide, Or.inr ⟨"pip", by decide⟩⟩
  have hquoted : Quoted '\'' "@@//pip/lock" "# don't \"\nlock = '@@//pip/lock' \"" :=
    ⟨by decide, by decide, "# don't \"\nlock = ".toList, " \"".toList, by decide⟩
  exact mem_referencedMainRepoPaths_of_quoted (Or.inr rfl) hquoted hnames (by decide)

end BazelDiff
