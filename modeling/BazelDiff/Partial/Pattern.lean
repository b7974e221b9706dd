/-
# What a rebuild pattern matches

The matcher compares bytes and tries every run a star can stand for. Read as wildcards over
characters, a pattern means: `?` one character that is no slash, `*` a run within a segment,
and `**`, with the slash behind it if there is one, no run, a run up to a slash, or all that
is left. The two agree unless a `?` meets a character of several bytes. A `**` is not any run
at all, so it is wider than `*` only where a segment ends.
-/

import BazelDiff.Lib.LossyText
import BazelDiff.Lib.Wildcard
import BazelDiff.Partial.ModuleFile

namespace BazelDiff

open Text Wildcard

/-! ## Patterns as wildcards -/

/-- The wildcards of a pattern's text, from left to right. -/
def patternTokens : List Char → List (Token Char)
  | [] => []
  | '*' :: '*' :: '/' :: rest => .across :: patternTokens rest
  | '*' :: '*' :: rest => .across :: patternTokens rest
  | '*' :: rest => .star :: patternTokens rest
  | '?' :: rest => .one :: patternTokens rest
  | c :: rest => .literal c :: patternTokens rest

theorem utf8_code : Code String.utf8EncodeChar IsContinuation '/' 47 where
  delimited := utf8EncodeChar_selfDelimiting
  lead := utf8EncodeChar_lead
  separator := by decide
  marks c h := Char.ext (UInt32.toNat.inj (toNat_eq_of_ascii_mem (by decide) h))
  outer h := absurd h.1 (by decide)

/-! ## The matcher's loops -/

/-- A cut is at a crossing when nothing comes before it, or a slash, or nothing after it. -/
theorem crossesAt_iff {run rest : List UInt8} :
    crossesAt (run ++ rest) run.length = true ↔
      run = [] ∨ run.getLast? = some 47 ∨ rest = [] := by
  rw [crossesAt]
  rcases List.eq_nil_or_concat run with rfl | ⟨front, b, rfl⟩
  · simp
  · simp

theorem globMatch_across {subject : List UInt8} {matchRest : List UInt8 → Bool} :
    (((List.range (subject.length + 1)).any fun skip =>
        crossesAt subject skip && matchRest (subject.drop skip)) || matchRest subject) = true ↔
      ∃ run rest, subject = run ++ rest ∧ (run = [] ∨ run.getLast? = some 47 ∨ rest = []) ∧
        matchRest rest = true := by
  rw [Bool.or_eq_true, List.any_eq_true]
  constructor
  · rintro (⟨skip, hskip, hmatch⟩ | hmatch)
    · rw [List.mem_range, Nat.lt_succ_iff] at hskip
      rw [Bool.and_eq_true] at hmatch
      refine ⟨subject.take skip, subject.drop skip, (List.take_append_drop skip subject).symm,
        crossesAt_iff.mp ?_, hmatch.2⟩
      rw [List.take_append_drop, List.length_take, Nat.min_eq_left hskip]
      exact hmatch.1
    · exact ⟨[], subject, rfl, Or.inl rfl, hmatch⟩
  · rintro ⟨run, rest, rfl, hrun, hmatch⟩
    refine Or.inl ⟨run.length, ?_, ?_⟩
    · rw [List.mem_range, List.length_append]
      omega
    · rw [Bool.and_eq_true, List.drop_left]
      exact ⟨crossesAt_iff.mpr hrun, hmatch⟩

/-- The loop over a star's runs goes on until its condition fails. -/
theorem mem_takeWhile_range' {keep : Nat → Bool} {k start length : Nat} :
    k ∈ (List.range' start length).takeWhile keep ↔
      start ≤ k ∧ k < start + length ∧ ∀ j, start ≤ j → j ≤ k → keep j = true := by
  induction length generalizing start with
  | zero =>
      simp only [List.range'_zero, List.takeWhile_nil, List.not_mem_nil, false_iff]
      omega
  | succ length ih =>
      rw [List.range'_succ, List.takeWhile_cons]
      cases hkeep : keep start with
      | false =>
          rw [if_neg Bool.false_ne_true]
          simp only [List.not_mem_nil, false_iff]
          rintro ⟨hle, -, hall⟩
          rw [hall start le_rfl hle] at hkeep
          cases hkeep
      | true =>
          rw [if_pos rfl, List.mem_cons, ih]
          constructor
          · rintro (rfl | ⟨hle, hlt, hall⟩)
            · refine ⟨le_rfl, by omega, fun j hj hjk => ?_⟩
              rw [le_antisymm hjk hj]
              exact hkeep
            · refine ⟨by omega, by omega, fun j hj hjk => ?_⟩
              rcases Nat.eq_or_lt_of_le hj with rfl | hj
              · exact hkeep
              · exact hall j hj hjk
          · rintro ⟨hle, hlt, hall⟩
            rcases Nat.eq_or_lt_of_le hle with rfl | hle
            · exact Or.inl rfl
            · exact Or.inr ⟨hle, by omega, fun j hj hjk => hall j (by omega) hjk⟩

theorem globMatch_star {subject : List UInt8} {matchRest : List UInt8 → Bool} :
    (((List.range (subject.length + 1)).takeWhile fun skip =>
        skip == 0 || subject[skip - 1]? != some 47).any fun skip =>
          matchRest (subject.drop skip)) = true ↔
      ∃ run rest, subject = run ++ rest ∧ 47 ∉ run ∧ matchRest rest = true := by
  rw [List.any_eq_true, List.range_eq_range']
  constructor
  · rintro ⟨skip, hskip, hmatch⟩
    obtain ⟨-, hlt, hall⟩ := mem_takeWhile_range'.mp hskip
    refine ⟨subject.take skip, subject.drop skip, (List.take_append_drop skip subject).symm, ?_,
      hmatch⟩
    intro hmem
    obtain ⟨i, hi, hget⟩ := List.getElem_of_mem hmem
    rw [List.length_take] at hi
    have hkeep := hall (i + 1) (Nat.zero_le _) (by omega)
    rw [List.getElem_take] at hget
    simp [hget, show i < subject.length by omega] at hkeep
  · rintro ⟨run, rest, rfl, hrun, hmatch⟩
    refine ⟨run.length, mem_takeWhile_range'.mpr ⟨Nat.zero_le _, ?_, ?_⟩, ?_⟩
    · rw [List.length_append]
      omega
    · intro j _ hj
      cases j with
      | zero => rfl
      | succ i =>
          have hne : run[i] ≠ 47 := fun heq => hrun (heq ▸ List.getElem_mem _)
          have hget : (run ++ rest)[i]? = some run[i] := by
            rw [List.getElem?_append_left hj, List.getElem?_eq_getElem hj]
          simp [hget, hne]
    · rw [List.drop_left]
      exact hmatch

/-- Bytes that are no wildcards are compared one by one. -/
theorem globMatch_literals {front : List UInt8} (hstar : 42 ∉ front) (hone : 63 ∉ front)
    (pattern subject : List UInt8) :
    globMatch (front ++ pattern) subject = true ↔
      ∃ rest, subject = front ++ rest ∧ globMatch pattern rest = true := by
  induction front generalizing subject with
  | nil => simp
  | cons b front ih =>
      rw [List.mem_cons, not_or] at hstar hone
      cases subject with
      | nil =>
          rw [List.cons_append, globMatch.eq_7 _ _ (fun _ h => absurd h.symm hstar.1)
            (fun _ h => absurd h.symm hstar.1) fun h => hstar.1 h.symm]
          simp
      | cons first tail =>
          rw [List.cons_append, globMatch.eq_6 _ _ _ _ (fun _ h => absurd h.symm hstar.1)
            (fun _ h => absurd h.symm hstar.1) (fun h => hstar.1 h.symm) fun h => hone.1 h.symm,
            Bool.and_eq_true, beq_iff_eq, ih hstar.2 hone.2]
          constructor
          · rintro ⟨rfl, rest, rfl, hrest⟩
            exact ⟨rest, rfl, hrest⟩
          · rintro ⟨rest, heq, hrest⟩
            obtain ⟨rfl, rfl⟩ := List.cons.inj heq
            exact ⟨rfl, rest, rfl, hrest⟩

/-- The bytes of a text start with an ASCII byte only where the text starts with its character. -/
theorem head_of_flatMap_encode {c : Char} (hc : c.toNat < 0x80) {text : List Char}
    {rest : List UInt8} (h : text.flatMap String.utf8EncodeChar = UInt8.ofNat c.toNat :: rest) :
    ∃ text', text = c :: text' := by
  cases text with
  | nil => cases h
  | cons first text =>
      obtain ⟨lead, tail, hcode, -⟩ := utf8EncodeChar_lead first
      rw [List.flatMap_cons, hcode] at h
      have hlead : UInt8.ofNat c.toNat ∈ String.utf8EncodeChar first := by
        rw [hcode, ← (List.cons.inj h).1]
        exact List.mem_cons_self
      have hbyte : (UInt8.ofNat c.toNat).toNat = c.toNat := toNat_ofNat_of_lt (by omega)
      have hcode := toNat_eq_of_ascii_mem (by omega) hlead
      rw [hbyte] at hcode
      obtain rfl : first = c := Char.ext (UInt32.toNat.inj hcode)
      exact ⟨text, rfl⟩

/-- The matcher reads the bytes of a pattern as its wildcards. -/
theorem globMatch_iff (pattern : List Char) (subject : List UInt8) :
    globMatch (pattern.flatMap String.utf8EncodeChar) subject = true ↔
      Matches 47 ((patternTokens pattern).flatMap (Token.encode String.utf8EncodeChar)) subject := by
  have hstar : String.utf8EncodeChar '*' = [42] := by decide
  have hslash : String.utf8EncodeChar '/' = [47] := by decide
  have hone : String.utf8EncodeChar '?' = [63] := by decide
  induction pattern using patternTokens.induct generalizing subject with
  | case1 => exact List.isEmpty_iff
  | case2 rest ih =>
      show globMatch (_ ++ (_ ++ (_ ++ rest.flatMap String.utf8EncodeChar))) subject = true ↔ _
      rw [hstar, hslash]
      show globMatch (42 :: 42 :: 47 :: rest.flatMap String.utf8EncodeChar) subject = true ↔ _
      rw [globMatch.eq_2, globMatch_across]
      simp only [ih]
      rfl
  | case3 rest hnot ih =>
      show globMatch (_ ++ (_ ++ rest.flatMap String.utf8EncodeChar)) subject = true ↔ _
      rw [hstar]
      show globMatch (42 :: 42 :: rest.flatMap String.utf8EncodeChar) subject = true ↔ _
      rw [globMatch.eq_3, globMatch_across]
      · simp only [ih]
        rw [patternTokens]
        · rfl
        · exact hnot
      · intro bytes hbytes
        obtain ⟨text, htext⟩ := @head_of_flatMap_encode '/' (by decide) _ _ hbytes
        exact hnot text htext
  | case4 rest hnotSlash hnot ih =>
      have hbytes : ∀ bytes, rest.flatMap String.utf8EncodeChar = 42 :: bytes → False := by
        intro bytes hbytes
        obtain ⟨text, htext⟩ := @head_of_flatMap_encode '*' (by decide) _ _ hbytes
        exact hnot text htext
      show globMatch (_ ++ rest.flatMap String.utf8EncodeChar) subject = true ↔ _
      rw [hstar]
      show globMatch (42 :: rest.flatMap String.utf8EncodeChar) subject = true ↔ _
      rw [globMatch.eq_4 _ _ (fun bytes => hbytes (47 :: bytes)) hbytes, globMatch_star]
      simp only [ih]
      rw [patternTokens]
      · rfl
      · exact hnotSlash
      · exact hnot
  | case5 rest ih =>
      show globMatch (_ ++ rest.flatMap String.utf8EncodeChar) subject = true ↔ _
      rw [hone]
      show globMatch (63 :: rest.flatMap String.utf8EncodeChar) subject = true ↔
        ∃ a tail, subject = a :: tail ∧ a ≠ 47 ∧ _
      cases subject with
      | nil =>
          rw [globMatch.eq_7 _ _ (fun _ h => absurd h (by decide))
            (fun _ h => absurd h (by decide)) fun h => absurd h (by decide)]
          simp
      | cons first tail =>
          rw [globMatch.eq_5, Bool.and_eq_true, bne_iff_ne]
          constructor
          · rintro ⟨hfirst, htail⟩
            exact ⟨first, tail, rfl, hfirst, (ih tail).mp htail⟩
          · rintro ⟨a, rest', heq, ha, htail⟩
            obtain ⟨rfl, rfl⟩ := List.cons.inj heq
            exact ⟨ha, (ih tail).mpr htail⟩
  | case6 c rest h1 h2 hstar' hone' ih =>
      have hplain : ∀ d : Char, d.toNat < 0x80 → c ≠ d →
          UInt8.ofNat d.toNat ∉ String.utf8EncodeChar c := by
        intro d hd hne hmem
        have hbyte : (UInt8.ofNat d.toNat).toNat = d.toNat := toNat_ofNat_of_lt (by omega)
        have hcode := toNat_eq_of_ascii_mem (by omega) hmem
        rw [hbyte] at hcode
        exact hne (Char.ext (UInt32.toNat.inj hcode))
      rw [List.flatMap_cons, globMatch_literals (hplain '*' (by decide) hstar')
        (hplain '?' (by decide) hone')]
      simp only [ih]
      rw [patternTokens]
      · exact matches_literals.symm
      · exact h1
      · exact h2
      · exact hstar'
      · exact hone'

/-! ## What a pattern denotes -/

/-- A pattern with a slash reads the whole path, another one the last piece. -/
def Glob.Reads (glob : Glob) (path subject : String) : Prop :=
  if '/' ∈ glob.pattern.toList then subject = path else IsLastPiece subject path

/-- The paths a pattern stands for, by what it reads of them. -/
def Glob.Denotes (glob : Glob) (path : String) : Prop :=
  ∃ subject, glob.Reads path subject ∧
    Matches '/' (patternTokens glob.pattern.toList) subject.toList

/-- The text the matcher compares is what the pattern reads. -/
theorem Glob.reads_iff {glob : Glob} {path subject : String} :
    glob.Reads path subject ↔
      subject = if '/' ∈ glob.pattern.toList then path else baseName path := by
  rw [Glob.Reads]
  split
  · exact Iff.rfl
  · constructor
    · intro hlast
      exact (baseName_eq_of_isLastPiece hlast).symm
    · rintro rfl
      exact isLastPiece_baseName path

theorem one_notMem_patternTokens {pattern : List Char} (h : '?' ∉ pattern) :
    Token.one ∉ patternTokens pattern := by
  induction pattern using patternTokens.induct with
  | case1 => simp [patternTokens]
  | case2 rest ih =>
      simp only [List.mem_cons, not_or] at h
      simp [patternTokens, ih h.2.2.2]
  | case3 rest hnot ih =>
      simp only [List.mem_cons, not_or] at h
      rw [patternTokens]
      · simp [ih h.2.2]
      · exact hnot
  | case4 rest hnotSlash hnot ih =>
      simp only [List.mem_cons, not_or] at h
      rw [patternTokens]
      · simp [ih h.2]
      · exact hnotSlash
      · exact hnot
  | case5 rest ih => simp at h
  | case6 c rest h1 h2 hstar hone ih =>
      simp only [List.mem_cons, not_or] at h
      rw [patternTokens]
      · simp [ih h.2]
      · exact h1
      · exact h2
      · exact hstar
      · exact hone

/-- A pattern matches what it denotes, unless a `?` meets a character of several bytes. -/
theorem Glob.matches_iff_denotes (glob : Glob) {path : String}
    (h : '?' ∉ glob.pattern.toList ∨
      ∀ subject, glob.Reads path subject → ∀ c ∈ subject.toList, c.toNat < 0x80) :
    glob.matches path = true ↔ glob.Denotes path := by
  have hmatch : ∀ subject, glob.Reads path subject →
      (globMatch (utf8 glob.pattern) (utf8 subject) = true ↔
        Matches '/' (patternTokens glob.pattern.toList) subject.toList) := by
    intro subject hreads
    rw [utf8, utf8, globMatch_iff]
    apply utf8_code.matches_iff
    refine h.imp one_notMem_patternTokens fun hascii c hc => ?_
    have hlow : c.val.toNat ≤ 0x7f := Nat.le_of_lt_succ (hascii subject hreads c hc)
    rw [String.utf8EncodeChar, if_pos hlow]
    rfl
  rw [Glob.matches, hmatch _ (Glob.reads_iff.mpr rfl), Glob.Denotes]
  constructor
  · intro hmatches
    exact ⟨_, Glob.reads_iff.mpr rfl, hmatches⟩
  · rintro ⟨subject, hreads, hmatches⟩
    rw [← Glob.reads_iff.mp hreads]
    exact hmatches

/-! ## Two stars for one -/

/-- No star of a text waits for a second one. -/
def starsClosed : List Char → Bool
  | [] => true
  | ['*'] => false
  | '*' :: '*' :: rest => starsClosed rest
  | _ :: rest => starsClosed rest

theorem starsClosed_cons {c : Char} (hc : c ≠ '*') (rest : List Char) :
    starsClosed (c :: rest) = starsClosed rest := by
  rw [starsClosed]
  · exact fun heq _ => hc heq
  · exact fun _ heq _ => hc heq

theorem patternTokens_append {front : List Char} (hclosed : starsClosed front = true)
    (back : List Char) :
    patternTokens (front ++ '*' :: back) = patternTokens front ++ patternTokens ('*' :: back) := by
  induction front using patternTokens.induct with
  | case1 => rfl
  | case2 rest ih =>
      show Token.across :: patternTokens (rest ++ '*' :: back) = _
      rw [ih (by simpa [starsClosed] using hclosed)]
      rfl
  | case3 rest hnot ih =>
      have hnot' : ∀ more, rest ++ '*' :: back = '/' :: more → False := by
        intro more heq
        cases rest with
        | nil => exact absurd (List.cons.inj heq).1 (by decide)
        | cons c rest => exact hnot rest (by rw [(List.cons.inj heq).1])
      have hstep : patternTokens ('*' :: '*' :: (rest ++ '*' :: back)) =
          .across :: patternTokens (rest ++ '*' :: back) := patternTokens.eq_3 _ hnot'
      rw [ih (by simpa [starsClosed] using hclosed)] at hstep
      rw [patternTokens.eq_3 _ hnot]
      exact hstep
  | case4 rest hnotSlash hnot ih =>
      cases rest with
      | nil => cases hclosed
      | cons c rest =>
          have hstar : c ≠ '*' := by
            rintro rfl
            exact hnot rest rfl
          have hstep : patternTokens ('*' :: (c :: rest ++ '*' :: back)) =
              .star :: patternTokens (c :: rest ++ '*' :: back) := by
            apply patternTokens.eq_4
            · exact fun _ heq => hstar (List.cons.inj heq).1
            · exact fun _ heq => hstar (List.cons.inj heq).1
          rw [ih (by simpa [starsClosed, hstar] using hclosed)] at hstep
          rw [patternTokens.eq_4 _ hnotSlash hnot]
          exact hstep
  | case5 rest ih =>
      show Token.one :: patternTokens (rest ++ '*' :: back) = _
      rw [ih (by simpa [starsClosed] using hclosed)]
      rfl
  | case6 c rest h1 h2 hstar hone ih =>
      have hstep : patternTokens (c :: (rest ++ '*' :: back)) =
          .literal c :: patternTokens (rest ++ '*' :: back) :=
        patternTokens.eq_6 _ _ (fun _ heq _ => hstar heq) (fun _ heq _ => hstar heq) hstar hone
      rw [starsClosed_cons hstar] at hclosed
      rw [ih hclosed] at hstep
      rw [patternTokens.eq_6 _ _ h1 h2 hstar hone]
      exact hstep

/-- A star of its own, at the end of a pattern or of a segment. -/
def EndsSegment (front back : String) : Prop :=
  starsClosed front.toList = true ∧ (back = "" ∨ ∃ rest, back = "/" ++ rest)

/-- Two stars in the place of such a star match whatever it matches. -/
theorem globMatch_widen {front back : String} (hends : EndsSegment front back)
    {subject : List UInt8} (h : globMatch (utf8 (front ++ "*" ++ back)) subject = true) :
    globMatch (utf8 (front ++ "**" ++ back)) subject = true := by
  have hone : (front ++ "*" ++ back).toList = front.toList ++ '*' :: back.toList := by simp
  have htwo : (front ++ "**" ++ back).toList = front.toList ++ '*' :: '*' :: back.toList := by simp
  rw [utf8, globMatch_iff, hone, patternTokens_append hends.1, List.flatMap_append] at h
  rw [utf8, globMatch_iff, htwo, patternTokens_append hends.1, List.flatMap_append]
  apply Matches.append_mono _ h
  intro rest hrest
  rcases hends.2 with rfl | ⟨back, rfl⟩
  · exact hrest.across_of_star_nil
  · rw [String.toList_append] at hrest ⊢
    exact Matches.across_of_star_sep hrest

/-- A pattern matches what its wildcards denote, and two stars for one at the end of a segment
lose nothing. -/
theorem Glob.matches_meaning (glob : Glob) :
    (∀ path, ('?' ∉ glob.pattern.toList ∨
        ∀ subject, glob.Reads path subject → ∀ c ∈ subject.toList, c.toNat < 0x80) →
      (glob.matches path = true ↔ glob.Denotes path)) ∧
    ∀ front back (wider : Glob), glob.pattern = front ++ "*" ++ back → EndsSegment front back →
      wider.pattern = front ++ "**" ++ back →
      ∀ path, glob.matches path = true → wider.matches path = true := by
  constructor
  · intro path h
    exact glob.matches_iff_denotes h
  · intro front back wider hpattern hends hwider path hmatch
    have hslash : '/' ∈ wider.pattern.toList ↔ '/' ∈ glob.pattern.toList := by
      rw [hpattern, hwider]
      simp
    rw [Glob.matches, hpattern] at hmatch
    rw [Glob.matches, hwider]
    rw [hpattern, hwider] at hslash
    simp only [hslash]
    exact globMatch_widen hends hmatch

def segmentGlob : Glob :=
  ⟨"a/*/b", by decide⟩

def crossingGlob : Glob :=
  ⟨"a/**/b", by decide⟩

def letterGlob : Glob :=
  ⟨"?.bzl", by decide⟩

/-- A star that is a segment of its own, over a name in two bytes, and a question mark over a file
in a directory of that name. -/
theorem segmentGlob_meaning :
    (segmentGlob.matches "a/é/b" = true ↔ segmentGlob.Denotes "a/é/b") ∧
      crossingGlob.matches "a/é/b" = true ∧
      (letterGlob.matches "é/a.bzl" = true ↔ letterGlob.Denotes "é/a.bzl") := by
  obtain ⟨hdenotes, hwiden⟩ := Glob.matches_meaning segmentGlob
  refine ⟨hdenotes "a/é/b" (Or.inl (by decide)), ?_, ?_⟩
  · exact hwiden "a/" "/b" crossingGlob (by decide) ⟨by decide, Or.inr ⟨"b", by decide⟩⟩
      (by decide) "a/é/b" (by decide +kernel)
  · refine (Glob.matches_meaning letterGlob).1 "é/a.bzl" (Or.inr fun subject hreads => ?_)
    obtain rfl : subject = "a.bzl" := (Glob.reads_iff.mp hreads).trans (by decide +kernel)
    have hascii : ("a.bzl".toList.all fun c => decide (c.toNat < 0x80)) = true := by decide
    exact fun c hc => of_decide_eq_true (List.all_eq_true.mp hascii c hc)

/-! ## Two stars that are not any run -/

/-- The reading in which two stars stand for any run across segments. -/
inductive AnyRun : List Char → List Char → Prop
  | nil : AnyRun [] []
  | one {c : Char} {pattern text : List Char} (hc : c ≠ '/') (h : AnyRun pattern text) :
      AnyRun ('?' :: pattern) (c :: text)
  | star {run pattern text : List Char} (hsingle : pattern.head? ≠ some '*') (hrun : '/' ∉ run)
      (h : AnyRun pattern text) : AnyRun ('*' :: pattern) (run ++ text)
  | across {pattern text : List Char} (run : List Char) (h : AnyRun pattern text) :
      AnyRun ('*' :: '*' :: pattern) (run ++ text)
  | noSegment {pattern text : List Char} (h : AnyRun pattern text) :
      AnyRun ('*' :: '*' :: '/' :: pattern) text
  | literal {c : Char} {pattern text : List Char} (hstar : c ≠ '*') (hone : c ≠ '?')
      (h : AnyRun pattern text) : AnyRun (c :: pattern) (c :: text)

/-- Any run and a slash behind it end in a slash. -/
theorem not_anyRun_optional_slash : ¬ AnyRun ['/', '*', '*', '/'] ['/', 'x'] := by
  have hslash : ∀ text, AnyRun ['/'] text → text = ['/'] := by
    intro text h
    cases h with
    | literal _ _ h =>
        cases h
        rfl
  intro h
  cases h with
  | literal _ _ h =>
      generalize hx : ['x'] = text at h
      cases h with
      | star hsingle => exact hsingle rfl
      | across run h =>
          have hlast := congrArg List.getLast? hx
          rw [hslash _ h] at hlast
          simp at hlast
      | noSegment h =>
          cases h
          cases hx
      | literal hstar => exact hstar rfl

/-- Two stars inside a segment match less than one, and less than any run. At the end of a
pattern they match more than any run and the slash behind them: the slash is optional. A `?`
does not match a character of two bytes. -/
theorem crossing_is_not_any_run :
    (AnyRun "a**b".toList "axb".toList ∧ (⟨"a**b", by decide⟩ : Glob).matches "axb" = false ∧
      (⟨"a*b", by decide⟩ : Glob).matches "axb" = true) ∧
    (¬ AnyRun "/**/".toList "/x".toList ∧ (⟨"/**/", by decide⟩ : Glob).matches "/x" = true) ∧
    (AnyRun "?".toList "é".toList ∧ (⟨"?", by decide⟩ : Glob).matches "é" = false) := by
  refine ⟨⟨?_, by decide +kernel, by decide +kernel⟩, ⟨?_, by decide +kernel⟩,
    ⟨?_, by decide +kernel⟩⟩
  · apply AnyRun.literal (by decide) (by decide)
    apply AnyRun.across ['x']
    exact AnyRun.literal (by decide) (by decide) AnyRun.nil
  · exact not_anyRun_optional_slash
  · exact AnyRun.one (by decide) AnyRun.nil

end BazelDiff
