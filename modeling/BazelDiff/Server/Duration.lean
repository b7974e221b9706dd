/-
# Durations on the command line

A duration is a sequence of groups, each a decimal number and a unit. The scanner takes the
text character after character and adds up seconds. One group's seconds saturate and their sum
is checked, so a group that alone is too large passes for the largest duration there is as long
as nothing is added to it.
-/

import BazelDiff.Lib.Delimited
import BazelDiff.Lib.Outcome
import BazelDiff.Lib.Unsigned

namespace BazelDiff.Server

open Delimited Outcome Unsigned

/-! ## The scanner -/

/-- The units by their letters, in seconds. -/
def unitSeconds : Char → Option Nat
  | 'd' => some 86400
  | 'h' => some 3600
  | 'm' => some 60
  | 's' => some 1
  | _ => none

/-- The value of decimal digits. -/
def decimal (digits : List Char) : Nat :=
  digits.foldl (fun value digit => 10 * value + (digit.toNat - '0'.toNat)) 0

/-- `str::parse::<u64>` of digits. -/
def parseAmount (digits : List Char) : Except String Nat :=
  if decimal digits < 2 ^ 64 then .ok (decimal digits)
  else .error "number too large to fit in target type"

/-- The seconds so far, and the digits since the last unit. -/
abbrev DurationScan := Nat × List Char

def scanCharacter (value : String) (scan : DurationScan) (character : Char) :
    Except String DurationScan :=
  if character.isDigit then .ok (scan.1, scan.2 ++ [character])
  else if scan.2 = [] then .error ("invalid duration '" ++ value ++ "'")
  else do
    let amount ← parseAmount scan.2
    match unitSeconds character with
    | none => .error ("invalid duration unit in '" ++ value ++ "'")
    | some unit =>
        match checkedAdd scan.1 (saturatingMul amount unit) with
        | none => .error ("duration overflow: " ++ value)
        | some seconds => .ok (seconds, [])

/-- The text without white space around it, in lower case. -/
def normalized (value : String) : List Char :=
  (Text.trim value).toList.map Char.toLower

/-- `parse_duration`, in seconds. -/
def parseDuration (value : String) : Except String Nat :=
  if normalized value = [] then .error ("invalid duration '" ++ value ++ "'")
  else do
    let (seconds, digits) ← (normalized value).foldlM (scanCharacter value) (0, [])
    if digits ≠ [] then .error ("invalid duration '" ++ value ++ "'")
    else .ok seconds

/-! ## What a duration is -/

inductive TimeUnit
  | day
  | hour
  | minute
  | second

def TimeUnit.letter : TimeUnit → Char
  | .day => 'd'
  | .hour => 'h'
  | .minute => 'm'
  | .second => 's'

def TimeUnit.seconds : TimeUnit → Nat
  | .day => 86400
  | .hour => 3600
  | .minute => 60
  | .second => 1

/-- A number and a unit. -/
@[ext]
structure Group where
  digits : List Char
  unit : TimeUnit
  digits_ne_nil : digits ≠ []
  isDigit : ∀ c ∈ digits, c.isDigit

namespace Group

def text (group : Group) : List Char :=
  group.digits ++ [group.unit.letter]

/-- The exact seconds of a group. -/
def seconds (group : Group) : Nat :=
  decimal group.digits * group.unit.seconds

end Group

/-- The exact seconds of groups. -/
def totalSeconds (groups : List Group) : Nat :=
  (groups.map (·.seconds)).sum

/-- A text is these groups. -/
def Spells (value : String) (groups : List Group) : Prop :=
  groups ≠ [] ∧ normalized value = groups.flatMap Group.text

/-- A text is a duration of so many seconds, and they fit in 64 bits. -/
def Denotes (value : String) (seconds : Nat) : Prop :=
  ∃ groups, Spells value groups ∧ totalSeconds groups = seconds ∧ seconds < 2 ^ 64

/-- The only group that is not zero is too large, although its number is not. -/
def LoneOverflow (groups : List Group) : Prop :=
  ∃ group, (groups.filter fun other => other.seconds ≠ 0) = [group] ∧
    decimal group.digits < 2 ^ 64 ∧ 2 ^ 64 ≤ group.seconds

/-- A text of groups only one of which is not zero, and that one saturates. -/
def Saturates (value : String) : Prop :=
  ∃ groups, Spells value groups ∧ LoneOverflow groups

/-! ## Groups in a text -/

theorem unitSeconds_letter (unit : TimeUnit) : unitSeconds unit.letter = some unit.seconds := by
  cases unit <;> rfl

theorem exists_unit_of_unitSeconds {c : Char} {seconds : Nat} (h : unitSeconds c = some seconds) :
    ∃ unit : TimeUnit, unit.letter = c ∧ unit.seconds = seconds := by
  unfold unitSeconds at h
  split at h
  · exact ⟨.day, rfl, Option.some.inj h⟩
  · exact ⟨.hour, rfl, Option.some.inj h⟩
  · exact ⟨.minute, rfl, Option.some.inj h⟩
  · exact ⟨.second, rfl, Option.some.inj h⟩
  · cases h

theorem not_isDigit_letter (unit : TimeUnit) : unit.letter.isDigit = false := by
  cases unit <;> rfl

theorem letter_injective : Function.Injective TimeUnit.letter := by
  intro unit unit' h
  cases unit <;> cases unit' <;> first | rfl | exact absurd h (by decide)

theorem takeWhile_text_append (group : Group) (rest : List Char) :
    (group.text ++ rest).takeWhile Char.isDigit = group.digits := by
  rw [Group.text, List.append_assoc, List.takeWhile_append_of_pos group.isDigit,
    List.singleton_append, List.takeWhile_cons_of_neg (by simp [not_isDigit_letter]),
    List.append_nil]

/-- A group shows where it ends. -/
theorem selfDelimiting_text : SelfDelimiting Group.text fun _ => True := by
  intro group group' rest rest' _ _ h
  have hdigits : group.digits = group'.digits := by
    rw [← takeWhile_text_append group rest, h, takeWhile_text_append]
  rw [Group.text, Group.text, hdigits, List.append_assoc, List.append_assoc,
    List.append_cancel_left_eq, List.singleton_append, List.singleton_append,
    List.cons.injEq] at h
  exact ⟨Group.ext hdigits (letter_injective h.1), h.2⟩

theorem flatMap_text_injective : Function.Injective fun groups : List Group =>
    groups.flatMap Group.text := by
  intro groups groups' h
  have hne : ∀ group : Group, True → group.text ≠ [] := by
    intro group _ hnil
    exact group.digits_ne_nil (List.append_eq_nil_iff.mp hnil).1
  exact selfDelimiting_text.flatMap_inj hne (fun _ _ => trivial) (fun _ _ => trivial) h

/-! ## What the scanner adds up -/

/-- One group more, as the scanner adds it. -/
def addGroup (seconds : Nat) (group : Group) : Option Nat :=
  if decimal group.digits < 2 ^ 64 then
    checkedAdd seconds (saturatingMul (decimal group.digits) group.unit.seconds)
  else none

theorem scanCharacter_digit (value : String) (scan : DurationScan) {c : Char} (h : c.isDigit) :
    scanCharacter value scan c = .ok (scan.1, scan.2 ++ [c]) := by
  rw [scanCharacter, if_pos h]

theorem scan_digits (value : String) (seconds : Nat) (before : List Char) {digits : List Char}
    (h : ∀ c ∈ digits, c.isDigit) :
    digits.foldlM (scanCharacter value) (seconds, before) = .ok (seconds, before ++ digits) := by
  induction digits generalizing before with
  | nil => rw [List.append_nil]; rfl
  | cons c digits ih =>
      rw [List.forall_mem_cons] at h
      rw [List.foldlM_cons, scanCharacter_digit value _ h.1]
      show digits.foldlM (scanCharacter value) (seconds, before ++ [c]) = _
      rw [ih (before ++ [c]) h.2, List.append_assoc, List.singleton_append]

/-- The letter of a unit ends a group. -/
theorem scanCharacter_unit (value : String) {group : Group} {seconds seconds' : Nat}
    (h : addGroup seconds group = some seconds') :
    scanCharacter value (seconds, group.digits) group.unit.letter = .ok (seconds', []) := by
  rw [addGroup] at h
  split_ifs at h with hamount
  rw [scanCharacter, if_neg (by simp [not_isDigit_letter]), if_neg group.digits_ne_nil,
    parseAmount, if_pos hamount, unitSeconds_letter]
  show (match checkedAdd seconds (saturatingMul (decimal group.digits) group.unit.seconds) with
    | none => Except.error ("duration overflow: " ++ value)
    | some seconds => .ok (seconds, [])) = _
  rw [h]

/-- A unit that the scanner accepts ends a group. -/
theorem exists_group_of_scanCharacter {value : String} {seconds : Nat} {digits : List Char}
    (hdigits : ∀ c ∈ digits, c.isDigit) {c : Char} (hc : ¬ c.isDigit) {scan : DurationScan}
    (h : scanCharacter value (seconds, digits) c = .ok scan) :
    ∃ group : Group, group.text = digits ++ [c] ∧ addGroup seconds group = some scan.1 ∧
      scan.2 = [] := by
  rw [scanCharacter, if_neg hc] at h
  split_ifs at h with hnil
  obtain ⟨amount, hamount, hfinish⟩ := bind_eq_ok h
  rw [parseAmount] at hamount
  split_ifs at hamount with hlt
  obtain rfl := Except.ok.inj hamount
  split at hfinish
  · cases hfinish
  · rename_i unit hunit
    split at hfinish
    · cases hfinish
    · rename_i seconds' hadd
      obtain ⟨unit', rfl, rfl⟩ := exists_unit_of_unitSeconds hunit
      obtain rfl := Except.ok.inj hfinish
      refine ⟨⟨digits, unit', hnil, hdigits⟩, rfl, ?_, rfl⟩
      rw [addGroup, if_pos hlt]
      exact hadd

theorem scan_groups (value : String) {groups : List Group} {seconds seconds' : Nat}
    (h : groups.foldlM addGroup seconds = some seconds') :
    (groups.flatMap Group.text).foldlM (scanCharacter value) (seconds, []) =
      .ok (seconds', []) := by
  induction groups generalizing seconds with
  | nil => rw [Option.some.inj h]; rfl
  | cons group groups ih =>
      rw [List.foldlM_cons] at h
      obtain ⟨next, hnext, hrest⟩ := Option.bind_eq_some_iff.mp h
      rw [List.flatMap_cons, List.foldlM_append, Group.text, List.foldlM_append,
        scan_digits value seconds [] group.isDigit]
      show (do
        let scan ← [group.unit.letter].foldlM (scanCharacter value) (seconds, group.digits)
        (groups.flatMap Group.text).foldlM (scanCharacter value) scan) = _
      rw [List.foldlM_cons, scanCharacter_unit value hnext]
      exact ih hrest

/-- What the scanner accepts to the last unit is groups. -/
theorem exists_groups_of_scan {value : String} {chars : List Char} {seconds seconds' : Nat}
    {digits : List Char} (hdigits : ∀ c ∈ digits, c.isDigit)
    (h : chars.foldlM (scanCharacter value) (seconds, digits) = .ok (seconds', [])) :
    ∃ groups : List Group, digits ++ chars = groups.flatMap Group.text ∧
      groups.foldlM addGroup seconds = some seconds' := by
  induction chars generalizing seconds digits with
  | nil =>
      obtain ⟨rfl, rfl⟩ := Prod.mk.inj (Except.ok.inj h)
      exact ⟨[], rfl, rfl⟩
  | cons c chars ih =>
      rw [List.foldlM_cons] at h
      obtain ⟨scan, hscan, hrest⟩ := bind_eq_ok h
      by_cases hc : c.isDigit
      · rw [scanCharacter_digit value _ hc] at hscan
        obtain rfl := Except.ok.inj hscan
        have hmore : ∀ d ∈ digits ++ [c], d.isDigit := by
          intro d hd
          rcases List.mem_append.mp hd with hd | hd
          · exact hdigits d hd
          · rwa [List.mem_singleton.mp hd]
        obtain ⟨groups, htext, hadd⟩ := ih hmore hrest
        exact ⟨groups, by rw [← htext, List.append_assoc, List.singleton_append], hadd⟩
      · obtain ⟨group, htext, hadd, hnone⟩ := exists_group_of_scanCharacter hdigits hc hscan
        obtain ⟨next, after⟩ := scan
        obtain rfl : after = [] := hnone
        obtain ⟨groups, hgroups, hadds⟩ :=
          ih (fun d hd => absurd hd List.not_mem_nil) hrest
        refine ⟨group :: groups, ?_, ?_⟩
        · rw [List.flatMap_cons, htext, ← hgroups, List.append_assoc]
          rfl
        · rw [List.foldlM_cons, hadd]
          exact hadds

theorem parseDuration_eq_ok_iff {value : String} {seconds : Nat} :
    parseDuration value = .ok seconds ↔
      ∃ groups, Spells value groups ∧ groups.foldlM addGroup 0 = some seconds := by
  rw [parseDuration]
  constructor
  · intro h
    split_ifs at h with hnil
    obtain ⟨⟨total, digits⟩, hscan, h⟩ := bind_eq_ok h
    dsimp only at h
    split_ifs at h with hdigits
    obtain rfl := Except.ok.inj h
    obtain rfl := not_not.mp hdigits
    obtain ⟨groups, htext, hadd⟩ :=
      exists_groups_of_scan (fun c hc => absurd hc List.not_mem_nil) hscan
    rw [List.nil_append] at htext
    refine ⟨groups, ⟨?_, htext⟩, hadd⟩
    rintro rfl
    exact hnil (htext.trans List.flatMap_nil)
  · rintro ⟨groups, ⟨hgroups, htext⟩, hadd⟩
    have hne : normalized value ≠ [] := by
      intro hnil
      rw [htext] at hnil
      exact hgroups (flatMap_text_injective (hnil.trans List.flatMap_nil.symm))
    rw [if_neg hne, htext, scan_groups value hadd]
    rfl

/-! ## Saturation -/

theorem decimal_le_seconds (group : Group) : decimal group.digits ≤ group.seconds := by
  apply Nat.le_mul_of_pos_right
  cases group.unit <;> decide

/-- A group adds its seconds, or the largest number for more, or its number is too large. -/
theorem addGroup_cases (seconds : Nat) (group : Group) :
    (group.seconds < 2 ^ 64 ∧ addGroup seconds group = checkedAdd seconds group.seconds) ∨
      (decimal group.digits < 2 ^ 64 ∧ 2 ^ 64 ≤ group.seconds ∧
        addGroup seconds group = checkedAdd seconds (2 ^ 64 - 1)) ∨
      (2 ^ 64 ≤ decimal group.digits ∧ addGroup seconds group = none) := by
  have hseconds : decimal group.digits * group.unit.seconds = group.seconds := rfl
  rw [addGroup, saturatingMul, hseconds]
  rcases Nat.lt_or_ge (decimal group.digits) (2 ^ 64) with hamount | hamount
  · rw [if_pos hamount]
    rcases Nat.lt_or_ge group.seconds (2 ^ 64) with hlt | hge
    · left
      rw [Nat.min_eq_left (Nat.le_sub_one_of_lt hlt)]
      exact ⟨hlt, rfl⟩
    · right; left
      rw [Nat.min_eq_right (Nat.le_trans (Nat.sub_le _ _) hge)]
      exact ⟨hamount, hge, rfl⟩
  · exact Or.inr (Or.inr ⟨hamount, if_neg (Nat.not_lt.mpr hamount)⟩)

theorem totalSeconds_cons (group : Group) (groups : List Group) :
    totalSeconds (group :: groups) = group.seconds + totalSeconds groups := by
  simp [totalSeconds]

theorem filter_nonzero_eq_nil_iff {groups : List Group} :
    (groups.filter fun other => other.seconds ≠ 0) = [] ↔ totalSeconds groups = 0 := by
  induction groups with
  | nil => simp [totalSeconds]
  | cons group groups ih =>
      rw [totalSeconds_cons, Nat.add_eq_zero_iff, ← ih, List.filter_cons]
      by_cases hzero : group.seconds = 0 <;> simp [hzero]

theorem loneOverflow_cons_of_zero {group : Group} {groups : List Group} (h : group.seconds = 0) :
    LoneOverflow (group :: groups) ↔ LoneOverflow groups := by
  rw [LoneOverflow, LoneOverflow, List.filter_cons_of_neg (by simpa using h)]

theorem loneOverflow_cons_of_ne_zero {group : Group} {groups : List Group}
    (h : group.seconds ≠ 0) :
    LoneOverflow (group :: groups) ↔
      totalSeconds groups = 0 ∧ decimal group.digits < 2 ^ 64 ∧ 2 ^ 64 ≤ group.seconds := by
  rw [LoneOverflow, List.filter_cons_of_pos (by simpa using h), ← filter_nonzero_eq_nil_iff]
  constructor
  · rintro ⟨lone, hlone, hamount, hover⟩
    obtain ⟨rfl, hnil⟩ := List.cons.inj hlone
    exact ⟨hnil, hamount, hover⟩
  · rintro ⟨hnil, hamount, hover⟩
    exact ⟨group, by rw [hnil], hamount, hover⟩

/-- What the scanner adds up is the exact sum when that fits, and the largest number when a group
saturates before and after nothing. -/
theorem addGroups_eq_some_iff {groups : List Group} {start seconds : Nat}
    (hstart : start < 2 ^ 64) :
    groups.foldlM addGroup start = some seconds ↔
      (start + totalSeconds groups = seconds ∧ seconds < 2 ^ 64) ∨
        (start = 0 ∧ LoneOverflow groups ∧ seconds = 2 ^ 64 - 1) := by
  induction groups generalizing start with
  | nil =>
      have hnone : ¬ LoneOverflow [] := by
        rintro ⟨_, hnil, -⟩
        cases hnil
      simp only [List.foldlM_nil, totalSeconds, List.map_nil, List.sum_nil, hnone, false_and,
        and_false, or_false, Nat.add_zero]
      constructor
      · intro h
        obtain rfl := Option.some.inj h
        exact ⟨rfl, hstart⟩
      · rintro ⟨rfl, -⟩
        rfl
  | cons group groups ih =>
      rw [List.foldlM_cons, totalSeconds_cons]
      obtain ⟨hlt, hadd⟩ | ⟨hamount, hge, hadd⟩ | ⟨hamount, hadd⟩ := addGroup_cases start group
      · rw [hadd, checkedAdd_bind_eq_some_iff]
        constructor
        · rintro ⟨hfits, hrest⟩
          rcases (ih hfits).mp hrest with ⟨hsum, hlt⟩ | ⟨hzero, hlone, hlast⟩
          · exact Or.inl ⟨by omega, hlt⟩
          · exact Or.inr ⟨by omega, (loneOverflow_cons_of_zero (by omega)).mpr hlone, hlast⟩
        · rintro (⟨hsum, hfits⟩ | ⟨hzero, hlone, hlast⟩)
          · have hnext : start + group.seconds < 2 ^ 64 := by omega
            exact ⟨hnext, (ih hnext).mpr (Or.inl ⟨by omega, hfits⟩)⟩
          · by_cases hgroup : group.seconds = 0
            · have hnext : start + group.seconds < 2 ^ 64 := by omega
              have hrest := (loneOverflow_cons_of_zero hgroup).mp hlone
              exact ⟨hnext, (ih hnext).mpr (Or.inr ⟨by omega, hrest, hlast⟩)⟩
            · have hover := ((loneOverflow_cons_of_ne_zero hgroup).mp hlone).2.2
              exact absurd hlt (Nat.not_lt.mpr hover)
      · have hgroup : group.seconds ≠ 0 := by omega
        rw [hadd, checkedAdd_bind_eq_some_iff, loneOverflow_cons_of_ne_zero hgroup]
        constructor
        · rintro ⟨hfits, hrest⟩
          rcases (ih hfits).mp hrest with ⟨hsum, hlt⟩ | ⟨hzero, -, -⟩
          · exact Or.inr ⟨by omega, ⟨by omega, hamount, hge⟩, by omega⟩
          · omega
        · rintro (⟨hsum, hfits⟩ | ⟨hzero, ⟨hothers, -, -⟩, hlast⟩)
          · omega
          · have hnext : start + (2 ^ 64 - 1) < 2 ^ 64 := by omega
            exact ⟨hnext, (ih hnext).mpr (Or.inl ⟨by omega, by omega⟩)⟩
      · have hge := Nat.le_trans hamount (decimal_le_seconds group)
        rw [hadd, loneOverflow_cons_of_ne_zero (by omega)]
        constructor
        · intro h
          cases h
        · rintro (⟨hsum, hfits⟩ | ⟨-, ⟨-, hlt, -⟩, -⟩)
          · omega
          · omega

/-- A lone group that overflows has more seconds than fit. -/
theorem LoneOverflow.le_totalSeconds {groups : List Group} (h : LoneOverflow groups) :
    2 ^ 64 ≤ totalSeconds groups := by
  induction groups with
  | nil =>
      obtain ⟨_, hnil, -⟩ := h
      cases hnil
  | cons group groups ih =>
      rw [totalSeconds_cons]
      by_cases hgroup : group.seconds = 0
      · exact Nat.le_add_left_of_le (ih ((loneOverflow_cons_of_zero hgroup).mp h))
      · exact Nat.le_add_right_of_le ((loneOverflow_cons_of_ne_zero hgroup).mp h).2.2

theorem Spells.unique {value : String} {groups groups' : List Group} (h : Spells value groups)
    (h' : Spells value groups') : groups = groups' :=
  flatMap_text_injective (h.2.symm.trans h'.2)

/-- A text parses as a duration when it denotes one, and to no other, exactly when it does not
saturate. -/
theorem durations_parse_exactly_iff (value : String) :
    (∀ seconds, parseDuration value = .ok seconds ↔ Denotes value seconds) ↔
      ¬ Saturates value := by
  have hparse : ∀ seconds, parseDuration value = .ok seconds ↔
      Denotes value seconds ∨ Saturates value ∧ seconds = 2 ^ 64 - 1 := by
    intro seconds
    rw [parseDuration_eq_ok_iff]
    constructor
    · rintro ⟨groups, hspells, hadd⟩
      rcases (addGroups_eq_some_iff (Nat.two_pow_pos 64)).mp hadd with
        ⟨hsum, hfits⟩ | ⟨-, hlone, hlast⟩
      · exact Or.inl ⟨groups, hspells, by rw [← hsum, Nat.zero_add], hfits⟩
      · exact Or.inr ⟨⟨groups, hspells, hlone⟩, hlast⟩
    · rintro (⟨groups, hspells, hsum, hfits⟩ | ⟨⟨groups, hspells, hlone⟩, hlast⟩)
      · exact ⟨groups, hspells, (addGroups_eq_some_iff (Nat.two_pow_pos 64)).mpr
          (Or.inl ⟨by rw [Nat.zero_add, hsum], hfits⟩)⟩
      · exact ⟨groups, hspells, (addGroups_eq_some_iff (Nat.two_pow_pos 64)).mpr
          (Or.inr ⟨rfl, hlone, hlast⟩)⟩
  constructor
  · intro h hsaturates
    obtain ⟨groups, hspells, hlone⟩ := hsaturates
    have hok := (hparse (2 ^ 64 - 1)).mpr (Or.inr ⟨⟨groups, hspells, hlone⟩, rfl⟩)
    obtain ⟨groups', hspells', hsum, hfits⟩ := (h _).mp hok
    rw [hspells'.unique hspells] at hsum
    have hover := hlone.le_totalSeconds
    omega
  · intro h seconds
    rw [hparse]
    exact or_iff_left fun hsaturates => h hsaturates.1

/-- More days than there are seconds in 64 bits parse as the largest duration. -/
theorem too_many_days_parse :
    parseDuration "213503982334602d" = .ok (2 ^ 64 - 1) ∧
      ¬ Denotes "213503982334602d" (2 ^ 64 - 1) := by
  constructor
  · decide +kernel
  · rintro ⟨groups, hspells, hsum, -⟩
    have hgroups : Spells "213503982334602d"
        [⟨"213503982334602".toList, .day, by decide, by simp⟩] := by
      constructor
      · exact List.cons_ne_nil _ _
      · decide +kernel
    rw [hspells.unique hgroups] at hsum
    revert hsum
    decide +kernel

end BazelDiff.Server
