/-
# Entries without boundaries

When keys and values are written one after another with nothing between them, where each ends is
lost, and nothing else is: two lists of entries are written alike exactly when one becomes the
other by moving ends along, and by adding or dropping entries of which nothing is written.
-/

import Mathlib.Logic.Relation
import Std.Data.ExtTreeMap.Lemmas

namespace Boundaries

variable {α : Type}

/-- What is written of some entries. -/
def written (entries : List (List α × List α)) : List α :=
  entries.flatMap fun entry => entry.1 ++ entry.2

@[simp]
theorem written_nil : written ([] : List (List α × List α)) = [] := rfl

@[simp]
theorem written_cons (entry : List α × List α) (entries : List (List α × List α)) :
    written (entry :: entries) = entry.1 ++ entry.2 ++ written entries := rfl

@[simp]
theorem written_append (front back : List (List α × List α)) :
    written (front ++ back) = written front ++ written back := by
  rw [written, List.flatMap_append]
  rfl

/-- One end is moved, or an empty entry dropped. -/
inductive Moves : List (List α × List α) → List (List α × List α) → Prop
  /-- The end of a key moves to the front, and its value begins earlier. -/
  | key (front : List (List α × List α)) (key moved value : List α)
      (back : List (List α × List α)) :
      Moves (front ++ (key ++ moved, value) :: back) (front ++ (key, moved ++ value) :: back)
  /-- The end of a value moves to the front, and the next key begins earlier. -/
  | value (front : List (List α × List α)) (key value moved key' value' : List α)
      (back : List (List α × List α)) :
      Moves (front ++ (key, value ++ moved) :: (key', value') :: back)
        (front ++ (key, value) :: (moved ++ key', value') :: back)
  | drop (front back : List (List α × List α)) : Moves (front ++ ([], []) :: back) (front ++ back)

/-- The entries are told apart by their ends only. -/
abbrev Shifted (first second : List (List α × List α)) : Prop :=
  Relation.EqvGen Moves first second

theorem Moves.written_eq {first second : List (List α × List α)} (h : Moves first second) :
    written first = written second := by
  cases h with
  | key front key moved value back => simp
  | value front key value moved key' value' back => simp
  | drop front back => simp

theorem Shifted.written_eq {first second : List (List α × List α)} (h : Shifted first second) :
    written first = written second := by
  induction h with
  | rel first second hmove => exact hmove.written_eq
  | refl entries => rfl
  | symm first second _ ih => exact ih.symm
  | trans first second third _ _ ih ih' => exact ih.trans ih'

theorem Moves.cons {first second : List (List α × List α)} (h : Moves first second)
    (entry : List α × List α) : Moves (entry :: first) (entry :: second) := by
  cases h with
  | key front key moved value back => exact .key (entry :: front) key moved value back
  | value front key value moved key' value' back =>
      exact .value (entry :: front) key value moved key' value' back
  | drop front back => exact .drop (entry :: front) back

theorem Shifted.cons {first second : List (List α × List α)} (h : Shifted first second)
    (entry : List α × List α) : Shifted (entry :: first) (entry :: second) := by
  induction h with
  | rel first second hmove => exact .rel _ _ (hmove.cons entry)
  | refl entries => exact .refl _
  | symm first second _ ih => exact .symm _ _ ih
  | trans first second third _ _ ih ih' => exact .trans _ _ _ ih ih'

/-- All ends can be moved behind everything that is written. -/
theorem shifted_single (entries : List (List α × List α)) :
    Shifted entries [(written entries, [])] := by
  induction entries with
  | nil => exact .symm _ _ (.rel _ _ (.drop [] []))
  | cons entry rest ih =>
      obtain ⟨key, value⟩ := entry
      -- what the rest writes is taken into the value, and then the value into the key
      have hvalue : Shifted [(key, value), (written rest, [])] [(key, value ++ written rest)] := by
        have hmove : Moves [(key, value ++ written rest), (([] : List α), [])]
            [(key, value), (written rest ++ [], [])] :=
          .value [] key value (written rest) [] [] []
        rw [List.append_nil] at hmove
        exact .trans _ _ _ (.symm _ _ (.rel _ _ hmove))
          (.rel _ _ (.drop [(key, value ++ written rest)] []))
      have hkey : Moves [(key ++ (value ++ written rest), [])]
          [(key, value ++ written rest ++ [])] :=
        .key [] key (value ++ written rest) [] []
      rw [List.append_nil] at hkey
      rw [written_cons, List.append_assoc]
      exact .trans _ _ _ (ih.cons (key, value))
        (.trans _ _ _ hvalue (.symm _ _ (.rel _ _ hkey)))

/-- Entries that are written alike differ in their ends only. -/
theorem shifted_iff {first second : List (List α × List α)} :
    Shifted first second ↔ written first = written second := by
  constructor
  · exact Shifted.written_eq
  · intro h
    have hsecond := shifted_single second
    rw [← h] at hsecond
    exact .trans _ _ _ (shifted_single first) (.symm _ _ hsecond)

/-! ## Maps that differ at one key -/

section Maps

variable {K V : Type} [Ord K] [Std.TransOrd K] [Std.LawfulEqOrd K]

/-- The entries of a map, spelled. -/
def entriesOf (spell : K → List α) (encode : V → List α) (map : Std.ExtTreeMap K V compare) :
    List (List α × List α) :=
  map.toList.map fun entry => (spell entry.1, encode entry.2)

omit [Std.LawfulEqOrd K] in
/-- Ordered entries are those before a key, at it and after it. -/
theorem filter_around {entries : List (K × V)}
    (h : entries.Pairwise fun a b => compare a.1 b.1 = .lt) (key : K) :
    entries = entries.filter (fun entry => compare entry.1 key = .lt) ++
      (entries.filter (fun entry => compare entry.1 key = .eq) ++
        entries.filter (fun entry => compare entry.1 key = .gt)) := by
  induction entries with
  | nil => rfl
  | cons entry rest ih =>
      obtain ⟨hentry, hrest⟩ := List.pairwise_cons.mp h
      have hbehind : compare entry.1 key ≠ .lt → ∀ other ∈ rest, compare other.1 key = .gt := by
        intro hnot other hother
        refine Std.TransCmp.gt_of_gt_of_isGE (Std.OrientedCmp.gt_of_lt (hentry other hother)) ?_
        rwa [Ordering.isGE_iff_ne_lt]
      have hnone : compare entry.1 key ≠ .lt → ∀ order : Ordering, order ≠ .gt →
          rest.filter (fun other => compare other.1 key = order) = [] := by
        intro hnot order horder
        rw [List.filter_eq_nil_iff]
        intro other hother
        simpa [hbehind hnot other hother] using horder.symm
      have hall : compare entry.1 key ≠ .lt →
          rest.filter (fun other => compare other.1 key = .gt) = rest := fun hnot =>
        List.filter_eq_self.mpr fun other hother => by simpa using hbehind hnot other hother
      cases hcompare : compare entry.1 key with
      | lt => simpa [hcompare] using ih hrest
      | eq =>
          have hnot : compare entry.1 key ≠ .lt := by simp [hcompare]
          simp [hcompare, hnone hnot .lt, hnone hnot .eq, hall hnot]
      | gt =>
          have hnot : compare entry.1 key ≠ .lt := by simp [hcompare]
          simp [hcompare, hnone hnot .lt, hnone hnot .eq, hall hnot]

/-- The entry of a map at a key. -/
theorem filter_at (map : Std.ExtTreeMap K V compare) (key : K) :
    map.toList.filter (fun entry => compare entry.1 key = .eq) =
      ((map[key]?).map fun value => (key, value)).toList := by
  have hmem : ∀ entry ∈ map.toList.filter (fun entry => compare entry.1 key = .eq),
      map[key]? = some entry.2 ∧ entry.1 = key := by
    rintro ⟨k, value⟩ hentry
    obtain ⟨hentry, hkey⟩ := List.mem_filter.mp hentry
    have heq : k = key := Std.LawfulEqCmp.eq_of_compare (of_decide_eq_true hkey)
    exact ⟨heq ▸ Std.ExtTreeMap.mem_toList_iff_getElem?_eq_some.mp hentry, heq⟩
  have hordered := (Std.ExtTreeMap.ordered_keys_toList (t := map)).filter
    fun entry => decide (compare entry.1 key = .eq)
  cases hvalue : map[key]? with
  | none =>
      refine List.eq_nil_iff_forall_not_mem.mpr fun entry hentry => ?_
      rw [hvalue] at hmem
      exact absurd (hmem entry hentry).1 (by simp)
  | some value =>
      have hin : (key, value) ∈ map.toList.filter fun entry => compare entry.1 key = .eq :=
        List.mem_filter.mpr
          ⟨Std.ExtTreeMap.mem_toList_iff_getElem?_eq_some.mpr hvalue, by simp⟩
      have hsame : ∀ entry ∈ map.toList.filter (fun entry => compare entry.1 key = .eq),
          entry = (key, value) := by
        rintro ⟨k, found⟩ hentry
        obtain ⟨hfound, rfl⟩ := hmem _ hentry
        rw [hvalue] at hfound
        rw [Option.some.inj hfound]
      cases hfiltered : map.toList.filter fun entry => compare entry.1 key = .eq with
      | nil =>
          rw [hfiltered] at hin
          cases hin
      | cons entry rest =>
          rw [hfiltered] at hsame hordered
          obtain rfl := hsame entry List.mem_cons_self
          cases rest with
          | nil => rfl
          | cons other rest =>
              obtain rfl := hsame other (by simp)
              have hlt := (List.pairwise_cons.mp hordered).1 (key, value) (by simp)
              simp at hlt

theorem written_entriesOf (spell : K → List α) (encode : V → List α)
    (map : Std.ExtTreeMap K V compare) (key : K) :
    written (entriesOf spell encode map) =
      written (entriesOf spell encode (map.filter fun k _ => compare k key = .lt)) ++
        (((map[key]?).map fun value => spell key ++ encode value).getD [] ++
          written (entriesOf spell encode (map.filter fun k _ => compare k key = .gt))) := by
  have haround := filter_around (Std.ExtTreeMap.ordered_keys_toList (t := map)) key
  rw [filter_at] at haround
  rw [entriesOf, haround, List.map_append, List.map_append, written_append, written_append,
    entriesOf, entriesOf, Std.ExtTreeMap.toList_filter, Std.ExtTreeMap.toList_filter]
  cases map[key]? with
  | none => rfl
  | some value => simp

/-- Maps that differ at one key only are written differently, if keys are not written as nothing
and values can be told from what is written of them. -/
theorem not_shifted_of_change {spell : K → List α} {encode : V → List α}
    (hencode : Function.Injective encode) {first second : Std.ExtTreeMap K V compare} {key : K}
    (hkey : spell key ≠ []) (hrest : ∀ other, other ≠ key → first[other]? = second[other]?)
    (hchange : first[key]? ≠ second[key]?) :
    ¬ Shifted (entriesOf spell encode first) (entriesOf spell encode second) := by
  have hside : ∀ order : Ordering, order ≠ .eq →
      (first.filter fun k _ => compare k key = order) =
        second.filter fun k _ => compare k key = order := by
    intro order horder
    refine Std.ExtTreeMap.ext_getElem? fun other => ?_
    rw [Std.ExtTreeMap.getElem?_filter', Std.ExtTreeMap.getElem?_filter']
    by_cases hother : other = key
    · subst hother
      simp [horder.symm]
    · rw [hrest other hother]
  rw [shifted_iff, written_entriesOf spell encode first key, written_entriesOf spell encode second key,
    hside .lt (by decide), hside .gt (by decide), List.append_cancel_left_eq,
    List.append_cancel_right_eq]
  cases hfirst : first[key]? with
  | none =>
      cases hsecond : second[key]? with
      | none => exact absurd (hfirst.trans hsecond.symm) hchange
      | some value => simpa using fun h => absurd h hkey
  | some value =>
      cases hsecond : second[key]? with
      | none => simpa using fun h => absurd h hkey
      | some other =>
          intro h
          have hvalues := hencode (List.append_cancel_left h)
          exact hchange (by rw [hfirst, hsecond, hvalues])

end Maps

end Boundaries
