/-
# Wildcard patterns

A pattern is a list of tokens over any alphabet with a separator. A star stands for a run
without separators; a crossing star for no run at all, a run up to a separator, or all that
is left. Patterns can be matched letter by letter or on the encodings of the letters: for a
code in which the first symbol of a letter is never an inner one the two agree, as long as
no token counts single symbols of longer letters.
-/

import BazelDiff.Lib.Delimited

namespace Wildcard

variable {α β : Type}

inductive Token (α : Type)
  /-- One symbol that is no separator. -/
  | one
  /-- A run without separators. -/
  | star
  /-- A run that stops where nothing came before it, after a separator or at the end. -/
  | across
  | literal (a : α)
  deriving DecidableEq

/-- What a pattern stands for. -/
def Matches (sep : α) : List (Token α) → List α → Prop
  | [], s => s = []
  | .one :: ts, s => ∃ a rest, s = a :: rest ∧ a ≠ sep ∧ Matches sep ts rest
  | .star :: ts, s => ∃ run rest, s = run ++ rest ∧ sep ∉ run ∧ Matches sep ts rest
  | .across :: ts, s => ∃ run rest, s = run ++ rest ∧
      (run = [] ∨ run.getLast? = some sep ∨ rest = []) ∧ Matches sep ts rest
  | .literal a :: ts, s => ∃ rest, s = a :: rest ∧ Matches sep ts rest

/-! ## Wider patterns -/

/-- A pattern can be widened behind any front. -/
theorem Matches.append_mono {sep : α} {front ts ts' : List (Token α)}
    (h : ∀ s, Matches sep ts s → Matches sep ts' s) {s : List α}
    (hmatch : Matches sep (front ++ ts) s) : Matches sep (front ++ ts') s := by
  induction front generalizing s with
  | nil => exact h s hmatch
  | cons token front ih =>
      cases token with
      | one =>
          obtain ⟨a, rest, hs, ha, hrest⟩ := hmatch
          exact ⟨a, rest, hs, ha, ih hrest⟩
      | star =>
          obtain ⟨run, rest, hs, hrun, hrest⟩ := hmatch
          exact ⟨run, rest, hs, hrun, ih hrest⟩
      | across =>
          obtain ⟨run, rest, hs, hrun, hrest⟩ := hmatch
          exact ⟨run, rest, hs, hrun, ih hrest⟩
      | literal a =>
          obtain ⟨rest, hs, hrest⟩ := hmatch
          exact ⟨rest, hs, ih hrest⟩

/-- A star at the end can cross. -/
theorem Matches.across_of_star_nil {sep : α} {s : List α} (h : Matches sep [.star] s) :
    Matches sep [.across] s := by
  obtain ⟨run, rest, hs, -, hrest⟩ := h
  exact ⟨run, rest, hs, Or.inr (Or.inr hrest), hrest⟩

/-- A star before a separator can cross, and take the separator with it. -/
theorem Matches.across_of_star_sep {sep : α} {ts : List (Token α)} {s : List α}
    (h : Matches sep (.star :: .literal sep :: ts) s) : Matches sep (.across :: ts) s := by
  obtain ⟨run, _, rfl, -, rest, rfl, hrest⟩ := h
  exact ⟨run ++ [sep], rest, by simp, Or.inr (Or.inl (by simp)), hrest⟩

/-! ## Patterns over a code -/

/-- A letter is coded by a first symbol and inner ones; only the separator's code contains
its symbol. -/
structure Code (encode : α → List β) (inner : β → Prop) (sep : α) (mark : β) : Prop where
  delimited : Delimited.SelfDelimiting encode fun _ => True
  lead : ∀ a, ∃ first tail, encode a = first :: tail ∧ ¬ inner first ∧ ∀ b ∈ tail, inner b
  separator : encode sep = [mark]
  marks : ∀ a, mark ∈ encode a → a = sep
  outer : ¬ inner mark

/-- The tokens of a coded pattern. -/
def Token.encode (encode : α → List β) : Token α → List (Token β)
  | .one => [.one]
  | .star => [.star]
  | .across => [.across]
  | .literal a => (encode a).map .literal

/-- No token counts single symbols, or no letter of the text has more than one. -/
def Counted (encode : α → List β) (ts : List (Token α)) (s : List α) : Prop :=
  Token.one ∉ ts ∨ ∀ a ∈ s, (encode a).length = 1

theorem Counted.tail {encode : α → List β} {token : Token α} {ts : List (Token α)} {s : List α}
    (h : Counted encode (token :: ts) s) : Counted encode ts s :=
  h.imp_left fun hone hmem => hone (List.mem_cons_of_mem _ hmem)

theorem Counted.subset {encode : α → List β} {ts : List (Token α)} {s s' : List α}
    (h : Counted encode ts s) (hsub : s' ⊆ s) : Counted encode ts s' :=
  h.imp_right fun hsingle a ha => hsingle a (hsub ha)

theorem matches_literals {mark : β} {front s : List β} {ts : List (Token β)} :
    Matches mark (front.map .literal ++ ts) s ↔ ∃ rest, s = front ++ rest ∧ Matches mark ts rest := by
  induction front generalizing s with
  | nil => simp
  | cons b front ih =>
      constructor
      · rintro ⟨rest, rfl, hrest⟩
        obtain ⟨rest', rfl, hmatch⟩ := ih.mp hrest
        exact ⟨rest', rfl, hmatch⟩
      · rintro ⟨rest, rfl, hmatch⟩
        exact ⟨front ++ rest, rfl, ih.mpr ⟨rest, rfl, hmatch⟩⟩

namespace Code

variable {encode : α → List β} {inner : β → Prop} {sep : α} {mark : β}

theorem encode_ne_nil (code : Code encode inner sep mark) (a : α) : encode a ≠ [] := by
  obtain ⟨first, tail, h, -⟩ := code.lead a
  rw [h]
  exact List.cons_ne_nil _ _

theorem mark_mem_flatMap (code : Code encode inner sep mark) {s : List α} :
    mark ∈ s.flatMap encode ↔ sep ∈ s := by
  rw [List.mem_flatMap]
  constructor
  · rintro ⟨a, ha, hmark⟩
    exact code.marks a hmark ▸ ha
  · intro hsep
    exact ⟨sep, hsep, by rw [code.separator]; exact List.mem_cons_self⟩

/-- A coded text ends in the separator's symbol where the text ends in the separator. -/
theorem getLast?_flatMap (code : Code encode inner sep mark) {s : List α} :
    (s.flatMap encode).getLast? = some mark ↔ s.getLast? = some sep := by
  rcases List.eq_nil_or_concat s with rfl | ⟨front, a, rfl⟩
  · simp
  · have hlast : (encode a).getLast? = some mark ↔ a = sep := by
      constructor
      · intro h
        exact code.marks a (List.mem_of_getLast? h)
      · rintro rfl
        rw [code.separator]
        rfl
    rw [List.concat_eq_append, List.flatMap_append, List.flatMap_singleton,
      List.getLast?_append_of_ne_nil _ (code.encode_ne_nil a), hlast, List.getLast?_append]
    simp

/-- A cut through a coded text: what follows is a rest of a letter, and then whole letters. -/
theorem split (code : Code encode inner sep mark) {s : List α} {front back : List β}
    (h : s.flatMap encode = front ++ back) :
    ∃ s₁ s₂ conts, s = s₁ ++ s₂ ∧ back = conts ++ s₂.flatMap encode ∧
      front ++ conts = s₁.flatMap encode ∧ (∀ b ∈ conts, inner b) ∧
      (front.getLast? = some mark → conts = []) := by
  induction s generalizing front with
  | nil =>
      obtain ⟨rfl, rfl⟩ := List.append_eq_nil_iff.mp h.symm
      exact ⟨[], [], [], rfl, rfl, rfl, by simp, fun _ => rfl⟩
  | cons a s ih =>
      rw [List.flatMap_cons] at h
      rcases List.append_eq_append_iff.mp h with ⟨more, rfl, hrest⟩ | ⟨conts, ha, rfl⟩
      · by_cases hmore : more = []
        · subst hmore
          exact ⟨[a], s, [], rfl, by rw [List.nil_append]; exact hrest.symm, by simp, by simp,
            fun _ => rfl⟩
        · obtain ⟨s₁, s₂, conts, rfl, hback, hfront, hinner, hlast⟩ := ih hrest
          refine ⟨a :: s₁, s₂, conts, rfl, hback, ?_, hinner, ?_⟩
          · rw [List.flatMap_cons, ← hfront, List.append_assoc]
          · intro hmark
            rw [List.getLast?_append_of_ne_nil _ hmore] at hmark
            exact hlast hmark
      · cases front with
        | nil =>
            exact ⟨[], a :: s, [], rfl, by rw [List.flatMap_cons, ha]; rfl, rfl, by simp, fun _ => rfl⟩
        | cons b front =>
            obtain ⟨first, tail, hcode, -, htail⟩ := code.lead a
            have hsplit : tail = front ++ conts := by
              rw [hcode, List.cons_append] at ha
              exact (List.cons.inj ha).2
            refine ⟨[a], s, conts, rfl, rfl, by simp [ha], ?_, ?_⟩
            · intro c hc
              exact htail c (hsplit ▸ List.mem_append_right _ hc)
            · intro hmark
              have hsep : a = sep := code.marks a
                (ha ▸ List.mem_append_left _ (List.mem_of_getLast? hmark))
              rw [hsep, code.separator, List.cons_append] at ha
              exact (List.append_eq_nil_iff.mp (List.cons.inj ha).2.symm).2

/-- Inner symbols left over in front of whole letters are no help to a pattern. -/
theorem drop_inner (code : Code encode inner sep mark) {ts : List (Token α)}
    (hone : Token.one ∉ ts) {conts : List β} (hinner : ∀ b ∈ conts, inner b) {s : List α}
    (h : Matches mark (ts.flatMap (Token.encode encode)) (conts ++ s.flatMap encode)) :
    Matches mark (ts.flatMap (Token.encode encode)) (s.flatMap encode) := by
  induction ts generalizing conts with
  | nil => exact (List.append_eq_nil_iff.mp h).2
  | cons token ts ih =>
      rw [List.mem_cons, not_or] at hone
      cases token with
      | one => exact absurd rfl hone.1
      | star =>
          obtain ⟨run, rest, hsplit, hrun, hrest⟩ := h
          rcases List.append_eq_append_iff.mp hsplit with ⟨more, rfl, hs⟩ | ⟨left, rfl, rfl⟩
          · exact ⟨more, rest, hs, fun hmem => hrun (List.mem_append_right _ hmem), hrest⟩
          · exact ⟨[], _, rfl, List.not_mem_nil,
              ih hone.2 (fun b hb => hinner b (List.mem_append_right _ hb)) hrest⟩
      | across =>
          obtain ⟨run, rest, hsplit, hrun, hrest⟩ := h
          rcases List.append_eq_append_iff.mp hsplit with ⟨more, rfl, hs⟩ | ⟨left, rfl, rfl⟩
          · refine ⟨more, rest, hs, ?_, hrest⟩
            rcases List.eq_nil_or_concat more with hmore | ⟨front, b, hmore⟩
            · exact Or.inl hmore
            · rcases hrun with hrun | hrun | hrun
              · exact Or.inl (List.append_eq_nil_iff.mp hrun).2
              · rw [List.getLast?_append_of_ne_nil _ (by simp [hmore])] at hrun
                exact Or.inr (Or.inl hrun)
              · exact Or.inr (Or.inr hrun)
          · exact ⟨[], _, rfl, Or.inl rfl,
              ih hone.2 (fun b hb => hinner b (List.mem_append_right _ hb)) hrest⟩
      | literal a =>
          cases conts with
          | nil => exact h
          | cons b conts =>
              obtain ⟨first, tail, hcode, hfirst, -⟩ := code.lead a
              obtain ⟨rest, hsplit, -⟩ := matches_literals.mp h
              rw [hcode, List.cons_append, List.cons_append] at hsplit
              exact absurd (hinner b List.mem_cons_self) ((List.cons.inj hsplit).1 ▸ hfirst)

/-- Letters coded by one symbol leave nothing over. -/
theorem conts_eq_nil (code : Code encode inner sep mark) {s : List α}
    (hsingle : ∀ a ∈ s, (encode a).length = 1) {front conts : List β}
    (h : front ++ conts = s.flatMap encode) (hinner : ∀ b ∈ conts, inner b) : conts = [] := by
  by_contra hne
  obtain ⟨b, hb⟩ := List.exists_mem_of_ne_nil _ hne
  obtain ⟨a, ha, hmem⟩ := List.mem_flatMap.mp (h ▸ List.mem_append_right front hb)
  obtain ⟨first, tail, hcode, hfirst, -⟩ := code.lead a
  have htail : tail = [] := by
    have hlength := hsingle a ha
    rw [hcode, List.length_cons] at hlength
    exact List.length_eq_zero_iff.mp (Nat.succ.inj hlength)
  rw [hcode, htail, List.mem_singleton] at hmem
  exact hfirst (hmem ▸ hinner b hb)

/-- Behind a cut, a pattern matches from the next whole letter on. -/
theorem of_cut (code : Code encode inner sep mark) {ts : List (Token α)} {s₁ s₂ : List α}
    (h : Counted encode ts s₁) {front conts : List β}
    (hfront : front ++ conts = s₁.flatMap encode) (hinner : ∀ b ∈ conts, inner b)
    (hmatch : Matches mark (ts.flatMap (Token.encode encode)) (conts ++ s₂.flatMap encode)) :
    Matches mark (ts.flatMap (Token.encode encode)) (s₂.flatMap encode) := by
  rcases h with hone | hsingle
  · exact code.drop_inner hone hinner hmatch
  · rw [code.conts_eq_nil hsingle hfront hinner] at hmatch
    exact hmatch

/-- What matches the code of a text matches the text. -/
theorem matches_of_encode (code : Code encode inner sep mark) {ts : List (Token α)} {s : List α}
    (h : Counted encode ts s)
    (hmatch : Matches mark (ts.flatMap (Token.encode encode)) (s.flatMap encode)) :
    Matches sep ts s := by
  induction ts generalizing s with
  | nil =>
      cases s with
      | nil => rfl
      | cons a s => exact absurd (List.append_eq_nil_iff.mp hmatch).1 (code.encode_ne_nil a)
  | cons token ts ih =>
      cases token with
      | one =>
          obtain ⟨b, rest, hs, hb, hmatch⟩ := hmatch
          have hsingle := h.resolve_left fun hone => hone List.mem_cons_self
          cases s with
          | nil => cases hs
          | cons a s =>
              obtain ⟨first, hcode⟩ := List.length_eq_one_iff.mp (hsingle a List.mem_cons_self)
              rw [List.flatMap_cons, hcode] at hs
              obtain ⟨rfl, rfl⟩ := List.cons.inj hs
              refine ⟨a, s, rfl, ?_, ih (h.tail.subset (List.subset_cons_self a s)) hmatch⟩
              rintro rfl
              rw [code.separator] at hcode
              exact hb (List.cons.inj hcode).1.symm
      | star =>
          obtain ⟨run, rest, hs, hrun, hmatch⟩ := hmatch
          obtain ⟨s₁, s₂, conts, rfl, rfl, hfront, hinner, -⟩ := code.split hs
          refine ⟨s₁, s₂, rfl, ?_, ih (h.tail.subset (List.subset_append_right _ _)) ?_⟩
          · rw [← code.mark_mem_flatMap, ← hfront, List.mem_append, not_or]
            exact ⟨hrun, fun hmark => code.outer (hinner mark hmark)⟩
          · exact code.of_cut (h.tail.subset (List.subset_append_left _ _)) hfront hinner hmatch
      | across =>
          obtain ⟨run, rest, hs, hrun, hmatch⟩ := hmatch
          rcases hrun with rfl | hrun | rfl
          · rw [List.nil_append] at hs
            exact ⟨[], s, rfl, Or.inl rfl, ih h.tail (hs ▸ hmatch)⟩
          · obtain ⟨s₁, s₂, conts, rfl, rfl, hfront, -, hlast⟩ := code.split hs
            obtain rfl := hlast hrun
            rw [List.append_nil] at hfront
            refine ⟨s₁, s₂, rfl, Or.inr (Or.inl ?_),
              ih (h.tail.subset (List.subset_append_right _ _)) hmatch⟩
            rw [← code.getLast?_flatMap, ← hfront]
            exact hrun
          · exact ⟨s, [], by simp, Or.inr (Or.inr rfl),
              ih (h.tail.subset (List.nil_subset _)) hmatch⟩
      | literal a =>
          obtain ⟨rest, hs, hmatch⟩ := matches_literals.mp hmatch
          cases s with
          | nil => exact absurd (List.append_eq_nil_iff.mp hs.symm).1 (code.encode_ne_nil a)
          | cons b s =>
              obtain ⟨rfl, rfl⟩ := code.delimited b a _ _ trivial trivial hs
              exact ⟨s, rfl, ih (h.tail.subset (List.subset_cons_self b s)) hmatch⟩

/-- What matches a text matches its code. -/
theorem matches_encode (code : Code encode inner sep mark) {ts : List (Token α)} {s : List α}
    (h : Counted encode ts s) (hmatch : Matches sep ts s) :
    Matches mark (ts.flatMap (Token.encode encode)) (s.flatMap encode) := by
  induction ts generalizing s with
  | nil =>
      obtain rfl : s = [] := hmatch
      rfl
  | cons token ts ih =>
      cases token with
      | one =>
          obtain ⟨a, rest, rfl, ha, hmatch⟩ := hmatch
          have hsingle := h.resolve_left fun hone => hone List.mem_cons_self
          obtain ⟨first, hcode⟩ := List.length_eq_one_iff.mp (hsingle a List.mem_cons_self)
          refine ⟨first, rest.flatMap encode, by rw [List.flatMap_cons, hcode]; rfl, ?_,
            ih (h.tail.subset (List.subset_cons_self a rest)) hmatch⟩
          rintro rfl
          exact ha (code.marks a (hcode ▸ List.mem_singleton_self first))
      | star =>
          obtain ⟨run, rest, rfl, hrun, hmatch⟩ := hmatch
          exact ⟨run.flatMap encode, rest.flatMap encode, List.flatMap_append,
            fun hmark => hrun (code.mark_mem_flatMap.mp hmark),
            ih (h.tail.subset (List.subset_append_right _ _)) hmatch⟩
      | across =>
          obtain ⟨run, rest, rfl, hrun, hmatch⟩ := hmatch
          refine ⟨run.flatMap encode, rest.flatMap encode, List.flatMap_append, ?_,
            ih (h.tail.subset (List.subset_append_right _ _)) hmatch⟩
          rcases hrun with rfl | hrun | rfl
          · exact Or.inl rfl
          · exact Or.inr (Or.inl (code.getLast?_flatMap.mpr hrun))
          · exact Or.inr (Or.inr rfl)
      | literal a =>
          obtain ⟨rest, rfl, hmatch⟩ := hmatch
          exact matches_literals.mpr ⟨rest.flatMap encode, List.flatMap_cons,
            ih (h.tail.subset (List.subset_cons_self a rest)) hmatch⟩

/-- A pattern matches a text as it matches the code of the text. -/
theorem matches_iff (code : Code encode inner sep mark) {ts : List (Token α)} {s : List α}
    (h : Counted encode ts s) :
    Matches mark (ts.flatMap (Token.encode encode)) (s.flatMap encode) ↔ Matches sep ts s := by
  constructor
  · intro hmatch
    exact code.matches_of_encode h hmatch
  · intro hmatch
    exact code.matches_encode h hmatch

end Code

end Wildcard
