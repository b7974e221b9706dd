/-
# Text through its characters

Labels, paths and option values are plain strings that the program cuts at
separators, strips of a leading marker and hands to a hasher as UTF-8. Every
operation here goes through the list of characters of its argument, so that the
list library decides each question about text and every definition evaluates.
-/

import Mathlib.Data.List.DropRight
import Mathlib.Data.List.Infix
import Mathlib.Data.List.Sort
import Mathlib.Data.String.Basic

namespace Text

/-- The UTF-8 bytes of a string. -/
def utf8 (s : String) : List UInt8 :=
  s.toList.flatMap String.utf8EncodeChar

/-- Whether `s` starts with `p`. -/
def hasPrefix (p s : String) : Bool :=
  p.toList.isPrefixOf s.toList

/-- Whether `s` ends with `p`. -/
def hasSuffix (p s : String) : Bool :=
  p.toList.isSuffixOf s.toList

/-- What is left of `s` after the leading `p`, when it starts with it. -/
def stripPrefix (p s : String) : Option String :=
  (p.toList.isPrefixOf? s.toList).map String.ofList

/-- The characters with the Unicode property `White_Space`. -/
def isWhiteSpace (c : Char) : Bool :=
  let code := c.toNat
  (9 ≤ code ∧ code ≤ 13) ∨ code = 0x20 ∨ code = 0x85 ∨ code = 0xa0 ∨ code = 0x1680 ∨
    (0x2000 ≤ code ∧ code ≤ 0x200a) ∨ code = 0x2028 ∨ code = 0x2029 ∨ code = 0x202f ∨
    code = 0x205f ∨ code = 0x3000

/-- Drop the white space at both ends. -/
def trim (s : String) : String :=
  String.ofList ((s.toList.dropWhile isWhiteSpace).rdropWhile isWhiteSpace)

/-- Whether `p` occurs in `s`. -/
def hasInfix (p s : String) : Bool :=
  p.toList <:+: s.toList

/-- Drop the characters at the end that satisfy `p`. -/
def trimEnd (p : Char → Bool) (s : String) : String :=
  String.ofList (s.toList.rdropWhile p)

/-- Drop every leading `c`. -/
def trimStart (c : Char) (s : String) : String :=
  String.ofList (s.toList.dropWhile (· == c))

/-- Replace every `a` by `b`. -/
def replaceChar (a b : Char) (s : String) : String :=
  String.ofList (s.toList.map fun c => if c = a then b else c)

/-- The pieces between the occurrences of `c`; one piece when there is none. -/
def split (c : Char) (s : String) : List String :=
  (s.toList.splitOn c).map String.ofList

/-- Put `sep` between consecutive pieces. -/
def join (sep : String) (pieces : List String) : String :=
  String.ofList (sep.toList.intercalate (pieces.map String.toList))

/-- The lines of a text, without their ends. What follows the last end is a line if it is not
empty. -/
def lines (s : String) : List String :=
  let pieces := split '\n' s
  (pieces.dropLast.map fun line => if hasSuffix "\r" line then
      String.ofList line.toList.dropLast else line) ++ (pieces.getLast?.filter (· ≠ "")).toList

/-- The words of a text between white space. -/
def words (s : String) : List String :=
  ((s.toList.splitOnP isWhiteSpace).filter fun word => !word.isEmpty).map String.ofList

/-- Cut a list at the first occurrence of `sep`, which is dropped. -/
def cutList {α : Type*} [BEq α] (sep : List α) : List α → Option (List α × List α)
  | [] => if sep.isEmpty then some ([], []) else none
  | x :: xs =>
      match sep.isPrefixOf? (x :: xs) with
      | some rest => some ([], rest)
      | none => (cutList sep xs).map fun (before, after) => (x :: before, after)

/-- Cut `s` at the first occurrence of `sep`, which is dropped. -/
def splitOnce (sep s : String) : Option (String × String) :=
  (cutList sep.toList s.toList).map fun (before, after) =>
    (String.ofList before, String.ofList after)

/-- Cut a list at the last occurrence of `c`, which is dropped. -/
def cutLast {α : Type*} [BEq α] (c : α) : List α → Option (List α × List α)
  | [] => none
  | x :: xs =>
      match cutLast c xs with
      | some (before, after) => some (x :: before, after)
      | none => if x == c then some ([], xs) else none

/-- Cut `s` at the last occurrence of `c`, which is dropped. -/
def rsplitOnce (c : Char) (s : String) : Option (String × String) :=
  (cutLast c s.toList).map fun (before, after) =>
    (String.ofList before, String.ofList after)

@[simp]
theorem utf8_append (s t : String) : utf8 (s ++ t) = utf8 s ++ utf8 t := by
  simp [utf8]

theorem utf8_injective : Function.Injective utf8 := by
  intro s t h
  have hencode : s.toList.utf8Encode = t.toList.utf8Encode := by
    rw [List.utf8Encode, List.utf8Encode]
    exact congrArg List.toByteArray h
  rw [String.utf8Encode_toList, String.utf8Encode_toList] at hencode
  exact String.toByteArray_inj.mp hencode

theorem hasPrefix_iff (p s : String) :
    hasPrefix p s = true ↔ ∃ rest, s.toList = p.toList ++ rest := by
  rw [hasPrefix, List.isPrefixOf_iff_prefix]
  exact ⟨fun ⟨rest, h⟩ => ⟨rest, h.symm⟩, fun ⟨rest, h⟩ => ⟨rest, h.symm⟩⟩

theorem hasSuffix_iff (p s : String) :
    hasSuffix p s = true ↔ ∃ front, s.toList = front ++ p.toList := by
  rw [hasSuffix, List.isSuffixOf_iff_suffix]
  exact ⟨fun ⟨front, h⟩ => ⟨front, h.symm⟩, fun ⟨front, h⟩ => ⟨front, h.symm⟩⟩

theorem stripPrefix_eq_some_iff (p s rest : String) :
    stripPrefix p s = some rest ↔ s.toList = p.toList ++ rest.toList := by
  simp only [stripPrefix, Option.map_eq_some_iff, List.isPrefixOf?_eq_some_iff_append_eq]
  constructor
  · rintro ⟨tail, h, rfl⟩
    simpa using h.symm
  · intro h
    exact ⟨rest.toList, h.symm, String.ofList_toList⟩

theorem stripPrefix_isSome (p s : String) :
    (stripPrefix p s).isSome = hasPrefix p s := by
  simp [stripPrefix, hasPrefix]

theorem cutLast_ne_none {α : Type*} [BEq α] [LawfulBEq α] {c : α} {xs : List α}
    (hmem : c ∈ xs) : cutLast c xs ≠ none := by
  induction xs with
  | nil => simp at hmem
  | cons x xs ih =>
      rcases List.mem_cons.mp hmem with rfl | hmem
      · cases hrest : cutLast c xs <;> simp [cutLast, hrest]
      · cases hrest : cutLast c xs with
        | none => exact absurd hrest (ih hmem)
        | some cut => simp [cutLast, hrest]

/-- The last occurrence of `c` really is an occurrence, and nothing after it is one. -/
theorem cutLast_eq_some {α : Type*} [BEq α] [LawfulBEq α] {c : α} {xs before after : List α}
    (h : cutLast c xs = some (before, after)) :
    xs = before ++ c :: after ∧ c ∉ after := by
  induction xs generalizing before after with
  | nil => simp [cutLast] at h
  | cons x xs ih =>
      cases hrest : cutLast c xs with
      | some cut =>
          obtain ⟨front, back⟩ := cut
          simp only [cutLast, hrest, Option.some.injEq, Prod.mk.injEq] at h
          obtain ⟨rfl, rfl⟩ := h
          obtain ⟨hxs, hmem⟩ := ih hrest
          exact ⟨by rw [hxs, List.cons_append], hmem⟩
      | none =>
          simp only [cutLast, hrest] at h
          split_ifs at h with hx
          obtain ⟨rfl, rfl⟩ := by simpa using h
          refine ⟨by simpa using hx, fun hmem => ?_⟩
          exact cutLast_ne_none hmem hrest

/-- The last occurrence of `c` in `front ++ c :: back` when `back` has none. -/
theorem cutLast_append_cons {α : Type*} [BEq α] [LawfulBEq α] {c : α} {back : List α}
    (hback : c ∉ back) (front : List α) :
    cutLast c (front ++ c :: back) = some (front, back) := by
  have hnone : ∀ {xs : List α}, c ∉ xs → cutLast c xs = none := by
    intro xs hxs
    induction xs with
    | nil => rfl
    | cons x xs ih =>
        have hx : x ≠ c := fun hx => hxs (hx ▸ List.mem_cons_self)
        simp [cutLast, ih fun hmem => hxs (List.mem_cons_of_mem _ hmem), hx]
  induction front with
  | nil => simp [cutLast, hnone hback]
  | cons x front ih => simp [cutLast, ih]

theorem rsplitOnce_eq_some {c : Char} {s before after : String}
    (h : rsplitOnce c s = some (before, after)) :
    s.toList = before.toList ++ c :: after.toList ∧ c ∉ after.toList := by
  simp only [rsplitOnce, Option.map_eq_some_iff, Prod.exists] at h
  obtain ⟨front, back, hcut, hpair⟩ := h
  obtain ⟨rfl, rfl⟩ := Prod.mk.inj hpair
  simpa using cutLast_eq_some hcut

/-! ## Trimming and replacing -/

theorem trimStart_of_head {c first : Char} {s : String} {rest : List Char}
    (hs : s.toList = first :: rest) (hfirst : first ≠ c) : trimStart c s = s := by
  rw [trimStart, hs, List.dropWhile_cons_of_neg (by simpa using hfirst), ← hs, String.ofList_toList]

theorem trimStart_of_notMem {c : Char} {s : String} (h : c ∉ s.toList) : trimStart c s = s := by
  cases hs : s.toList with
  | nil => rw [trimStart, hs, List.dropWhile_nil, ← hs, String.ofList_toList]
  | cons first rest =>
      apply trimStart_of_head hs
      rintro rfl
      exact h (by simp [hs])

theorem trimStart_trimStart (c : Char) (s : String) :
    trimStart c (trimStart c s) = trimStart c s := by
  rw [trimStart, trimStart, String.toList_ofList, List.dropWhile_idempotent]

theorem trimStart_singleton_append (c : Char) (s : String) :
    trimStart c (String.singleton c ++ s) = trimStart c s := by
  have hlist : (String.singleton c ++ s).toList = c :: s.toList := by simp
  rw [trimStart, hlist, List.dropWhile_cons_of_pos (by simp)]
  rfl

theorem replaceChar_append (a b : Char) (s t : String) :
    replaceChar a b (s ++ t) = replaceChar a b s ++ replaceChar a b t := by
  rw [replaceChar, String.toList_append, List.map_append, String.ofList_append]
  rfl

theorem replaceChar_of_notMem {a b : Char} {s : String} (h : a ∉ s.toList) :
    replaceChar a b s = s := by
  have hfix : s.toList.map (fun c => if c = a then b else c) = s.toList := by
    refine (List.map_congr_left fun c hmem => ?_).trans (List.map_id _)
    exact if_neg fun hca : c = a => h (hca ▸ hmem)
  rw [replaceChar, hfix, String.ofList_toList]

/-! ## The first separator -/

/-- A first character the separator does not start with stays in front of the cut. -/
theorem cutList_cons_of_ne {α : Type*} [BEq α] [LawfulBEq α] {x y : α} (h : y ≠ x)
    (sep xs : List α) :
    cutList (y :: sep) (x :: xs) =
      (cutList (y :: sep) xs).map fun (before, after) => (x :: before, after) := by
  rw [cutList]
  have hhead : (y :: sep).isPrefixOf? (x :: xs) = none := by
    simp [List.isPrefixOf?, h]
  rw [hhead]

/-- What a cut leaves out is the separator. -/
theorem cutList_eq_some {sep xs before after : List Char} (h : cutList sep xs = some (before, after)) :
    xs = before ++ sep ++ after := by
  induction xs generalizing before after with
  | nil =>
      rw [cutList] at h
      split_ifs at h with hempty
      cases h
      simpa using hempty
  | cons x xs ih =>
      rw [cutList] at h
      split at h
      · rename_i rest hrest
        cases h
        exact (List.isPrefixOf?_eq_some_iff_append_eq.mp hrest).symm
      · obtain ⟨⟨before', after'⟩, hcut, hpair⟩ := Option.map_eq_some_iff.mp h
        cases hpair
        rw [List.cons_append, List.cons_append, ← ih hcut]

/-- The first occurrence of a separator of one element. -/
theorem cutList_append_cons {α : Type*} [BEq α] [LawfulBEq α] {x : α} {front : List α}
    (hfront : x ∉ front) (back : List α) : cutList [x] (front ++ x :: back) = some (front, back) := by
  induction front with
  | nil => simp [cutList, List.isPrefixOf?]
  | cons y front ih =>
      rw [List.mem_cons, not_or] at hfront
      rw [List.cons_append, cutList_cons_of_ne hfront.1, ih hfront.2]
      rfl

theorem splitOnce_append {c : Char} {sep front back : String} (hsep : sep.toList = [c])
    (hfront : c ∉ front.toList) : splitOnce sep (front ++ sep ++ back) = some (front, back) := by
  have hlist : (front ++ sep ++ back).toList = front.toList ++ c :: back.toList := by simp [hsep]
  rw [splitOnce, hsep, hlist, cutList_append_cons hfront]
  simp

theorem splitOnce_eq_none {c : Char} {sep s : String} (hsep : sep.toList = [c])
    (hs : c ∉ s.toList) : splitOnce sep s = none := by
  have hcut : ∀ xs : List Char, c ∉ xs → cutList [c] xs = none := by
    intro xs hxs
    induction xs with
    | nil => rfl
    | cons x xs ih =>
        rw [List.mem_cons, not_or] at hxs
        rw [cutList_cons_of_ne hxs.1, ih hxs.2]
        rfl
  rw [splitOnce, hsep, hcut _ hs]
  rfl

/-! ## Pieces between separators -/

theorem split_injective (c : Char) : Function.Injective (split c) := by
  intro s t h
  have hpieces : s.toList.splitOn c = t.toList.splitOn c :=
    List.map_injective_iff.mpr (fun _ _ heq => String.ofList_injective heq) h
  have hself : ∀ text : String, [c].intercalate (text.toList.splitOn c) = text.toList :=
    fun _ => List.intercalate_splitOn c
  rw [← String.toList_inj, ← hself s, hpieces, hself t]

/-- The pieces of a text, joined again. -/
theorem join_split (c : Char) (s : String) : join (String.singleton c) (split c s) = s := by
  have hpieces : (split c s).map String.toList = s.toList.splitOn c := by
    rw [split, List.map_map]
    simp
  rw [join, hpieces, String.toList_singleton, List.intercalate_splitOn, String.ofList_toList]

/-- Texts that are each ended by a separator are told apart by their pieces alone: where one
text ends and the next begins is lost. -/
theorem split_ended (c : Char) (texts : List String) :
    split c (String.ofList (texts.flatMap fun text => text.toList ++ [c])) =
      texts.flatMap (split c) ++ [""] := by
  induction texts with
  | nil => rfl
  | cons text rest ih =>
      rw [split, String.toList_ofList] at ih ⊢
      rw [List.flatMap_cons, List.append_assoc, List.singleton_append,
        List.splitOn_append_cons_self, List.map_append, ih, List.flatMap_cons, List.append_assoc]
      rfl

/-- The bytes of texts that are each ended by a separator say the pieces of the texts, and nothing
else. -/
theorem utf8_ended_eq_iff (c : Char) (texts others : List String) :
    (texts.flatMap fun text => utf8 text ++ String.utf8EncodeChar c) =
        (others.flatMap fun text => utf8 text ++ String.utf8EncodeChar c) ↔
      texts.flatMap (split c) = others.flatMap (split c) := by
  have hbytes : ∀ texts : List String,
      (texts.flatMap fun text => utf8 text ++ String.utf8EncodeChar c) =
        utf8 (String.ofList (texts.flatMap fun text => text.toList ++ [c])) := by
    intro texts
    induction texts with
    | nil => rfl
    | cons text rest ih =>
        rw [List.flatMap_cons, ih, List.flatMap_cons, utf8, utf8, utf8, String.toList_ofList,
          String.toList_ofList, List.flatMap_append, List.flatMap_append, List.flatMap_singleton]
  rw [hbytes, hbytes, utf8_injective.eq_iff, ← (split_injective c).eq_iff, split_ended, split_ended,
    List.append_cancel_right_eq]

/-- The characters of a joined text are those of its pieces and of the separator. -/
theorem mem_of_mem_join {sep : String} {pieces : List String} {c : Char}
    (h : c ∈ (join sep pieces).toList) : c ∈ sep.toList ∨ ∃ piece ∈ pieces, c ∈ piece.toList := by
  rw [join, String.toList_ofList] at h
  induction pieces with
  | nil => exact absurd h List.not_mem_nil
  | cons piece rest ih =>
      cases rest with
      | nil =>
          rw [List.map_singleton, List.intercalate_singleton] at h
          exact Or.inr ⟨piece, List.mem_singleton_self _, h⟩
      | cons next rest =>
          rw [List.map_cons, List.map_cons, List.intercalate_cons_cons, List.append_assoc,
            List.mem_append, List.mem_append] at h
          rcases h with hpiece | hsep | hrest
          · exact Or.inr ⟨piece, List.mem_cons_self, hpiece⟩
          · exact Or.inl hsep
          · apply (ih hrest).imp_right
            rintro ⟨later, hlater, hc⟩
            exact ⟨later, List.mem_cons_of_mem _ hlater, hc⟩

/-- Joined texts have the pieces of the texts. -/
theorem split_join (c : Char) {texts : List String} (hne : texts ≠ []) :
    split c (join (String.singleton c) texts) = texts.flatMap (split c) := by
  induction texts with
  | nil => exact absurd rfl hne
  | cons text rest ih =>
      cases rest with
      | nil => simp [join]
      | cons next rest =>
          have hjoin : (join (String.singleton c) (text :: next :: rest)).toList =
              text.toList ++ c :: (join (String.singleton c) (next :: rest)).toList := by
            simp [join, List.intercalate]
          rw [split, hjoin, List.splitOn_append_cons_self, List.map_append, List.flatMap_cons,
            ← ih (List.cons_ne_nil _ _)]
          rfl

theorem not_mem_of_mem_split {c : Char} {s piece : String} (h : piece ∈ split c s) :
    c ∉ piece.toList := by
  have hlist : ∀ (xs : List Char), ∀ part ∈ xs.splitOn c, c ∉ part := by
    intro xs
    induction xs with
    | nil => simp
    | cons x rest ih =>
        rw [List.splitOn_cons_eq_if_modifyHead]
        split_ifs with hx
        · intro part hpart
          rcases List.mem_cons.mp hpart with rfl | hpart
          · simp
          · exact ih part hpart
        · cases hrest : rest.splitOn c with
          | nil => simp
          | cons first others =>
              intro part hpart
              rcases List.mem_cons.mp hpart with rfl | hpart
              · have hfirst := ih first (hrest ▸ List.mem_cons_self)
                simp only [List.mem_cons, not_or]
                exact ⟨fun heq => hx (by simp [heq]), hfirst⟩
              · exact ih part (hrest ▸ List.mem_cons_of_mem _ hpart)
  obtain ⟨part, hpart, rfl⟩ := List.mem_map.mp h
  rw [String.toList_ofList]
  exact hlist s.toList part hpart

theorem split_eq_singleton {c : Char} {s : String} (h : c ∉ s.toList) : split c s = [s] := by
  rw [split, List.splitOn_eq_singleton h]
  simp

/-- Texts without the separator are their own pieces. -/
theorem flatMap_split_of_notMem {c : Char} {texts : List String} (h : ∀ text ∈ texts, c ∉ text.toList) :
    texts.flatMap (split c) = texts := by
  induction texts with
  | nil => rfl
  | cons text rest ih =>
      rw [List.flatMap_cons, split_eq_singleton (h text List.mem_cons_self),
        ih fun other hmem => h other (List.mem_cons_of_mem _ hmem)]
      rfl

/-- Joined pieces are the pieces again. -/
theorem split_join_pieces {c : Char} {pieces : List String} (hne : pieces ≠ [])
    (h : ∀ piece ∈ pieces, c ∉ piece.toList) :
    split c (join (String.singleton c) pieces) = pieces := by
  rw [split_join c hne, flatMap_split_of_notMem h]

theorem split_append_singleton (c : Char) (s t : String) :
    split c (s ++ String.singleton c ++ t) = split c s ++ split c t := by
  have hlist : (s ++ String.singleton c ++ t).toList = s.toList ++ c :: t.toList := by simp
  rw [split, hlist, List.splitOn_append_cons_self, List.map_append]
  rfl

/-- A text starts with another one and a separator, or is the other one, exactly when its
pieces start with the pieces of the other one. -/
theorem split_prefix_iff (c : Char) (s t : String) :
    split c s <+: split c t ↔ t = s ∨ hasPrefix (s ++ String.singleton c) t = true := by
  constructor
  · rintro ⟨more, hmore⟩
    cases more with
    | nil =>
        rw [List.append_nil] at hmore
        exact Or.inl (split_injective c hmore).symm
    | cons first others =>
        have hpieces : ∀ piece ∈ first :: others, c ∉ piece.toList := fun piece hpiece =>
          not_mem_of_mem_split (hmore ▸ List.mem_append_right _ hpiece : piece ∈ split c t)
        have htext : t = s ++ String.singleton c ++ join (String.singleton c) (first :: others) := by
          apply split_injective c
          rw [split_append_singleton, split_join_pieces (List.cons_ne_nil _ _) hpieces, hmore]
        refine Or.inr ((hasPrefix_iff _ _).mpr
          ⟨(join (String.singleton c) (first :: others)).toList, ?_⟩)
        rw [htext]
        simp
  · rintro (rfl | hhead)
    · exact List.prefix_rfl
    · obtain ⟨rest, hrest⟩ := (hasPrefix_iff _ _).mp hhead
      have htext : t = s ++ String.singleton c ++ String.ofList rest := by
        rw [← String.toList_inj, hrest]
        simp
      rw [htext, split_append_singleton]
      exact List.prefix_append _ _

/-! ## Suffixes without a character -/

/-- A suffix that does not contain `c` lies after every `c`. -/
theorem suffix_of_suffix_append_cons {α : Type*} {c : α} {tail front back : List α}
    (hc : c ∉ tail) (h : tail <:+ front ++ c :: back) : tail <:+ back := by
  rcases List.suffix_or_suffix_of_suffix h ((List.suffix_cons c back).trans
    (List.suffix_append front (c :: back))) with hback | ⟨middle, rfl⟩
  · exact hback
  · rcases List.eq_nil_or_concat middle with rfl | ⟨rest, last, rfl⟩
    · exact List.suffix_rfl
    · obtain ⟨start, hstart⟩ := h
      have heq : (start ++ rest ++ [last]) ++ back = (front ++ [c]) ++ back := by
        simpa using hstart
      obtain rfl : last = c := by
        have hlast := congrArg List.getLast? (List.append_cancel_right heq)
        simpa using hlast
      exact absurd (by simp) hc

theorem suffix_dropWhile {α : Type*} [BEq α] [LawfulBEq α] {c : α} {tail xs : List α}
    (hc : c ∉ tail) (h : tail <:+ xs) : tail <:+ xs.dropWhile (· == c) := by
  induction xs with
  | nil => exact h
  | cons x rest ih =>
      rw [List.dropWhile_cons]
      split_ifs with hx
      · obtain rfl := eq_of_beq hx
        have hrest : tail <:+ [] ++ x :: rest := h
        exact ih (suffix_of_suffix_append_cons hc hrest)
      · exact h

theorem hasSuffix_trimStart {c : Char} {p s : String} (hc : c ∉ p.toList)
    (h : hasSuffix p s = true) : hasSuffix p (trimStart c s) = true := by
  rw [hasSuffix, List.isSuffixOf_iff_suffix] at h ⊢
  rw [trimStart, String.toList_ofList]
  exact suffix_dropWhile hc h

theorem hasSuffix_replaceChar {a b : Char} {p s : String} (ha : a ∉ p.toList)
    (h : hasSuffix p s = true) : hasSuffix p (replaceChar a b s) = true := by
  rw [hasSuffix, List.isSuffixOf_iff_suffix] at h ⊢
  rw [← replaceChar_of_notMem ha, replaceChar, replaceChar, String.toList_ofList,
    String.toList_ofList]
  exact h.map _

/-- The last piece of a text keeps its suffixes that have no separator. -/
theorem hasSuffix_getLast_split {c : Char} {p s : String} (hc : c ∉ p.toList)
    (h : hasSuffix p s = true) (fallback : String) :
    hasSuffix p ((split c s).getLast?.getD fallback) = true := by
  rw [hasSuffix, List.isSuffixOf_iff_suffix] at h ⊢
  rw [split, List.getLast?_map]
  cases hcut : cutLast c s.toList with
  | none =>
      have hmem : c ∉ s.toList := fun hmem => cutLast_ne_none hmem hcut
      rw [List.splitOn_eq_singleton hmem]
      simpa using h
  | some cut =>
      obtain ⟨hs, hback⟩ := cutLast_eq_some hcut
      rw [hs, List.splitOn_append_cons_self, List.splitOn_eq_singleton hback]
      rw [hs] at h
      simpa using suffix_of_suffix_append_cons hc h

end Text
