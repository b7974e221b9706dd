/-
# Base-128 varints

A varint carries seven bits a byte, the lowest first, and every byte but its last one has
the top bit. Its value is a number of any size: what fits in a machine word is a question
for the reader of a varint and not for the varint.
-/

import BazelDiff.Lib.Delimited

namespace Varint

open Delimited

/-- The bytes of one varint. -/
inductive IsVarint : List UInt8 → Prop
  | last {byte : UInt8} (h : byte.toNat < 128) : IsVarint [byte]
  | more {byte : UInt8} {rest : List UInt8} (h : 128 ≤ byte.toNat) (hrest : IsVarint rest) :
      IsVarint (byte :: rest)

/-- The number the seven-bit groups of some bytes spell. -/
def value : List UInt8 → Nat
  | [] => 0
  | byte :: rest => byte.toNat % 128 + 128 * value rest

/-- The shortest varint of a number. -/
def encode (n : Nat) : List UInt8 :=
  if n < 128 then [UInt8.ofNat n] else UInt8.ofNat (n % 128 + 128) :: encode (n / 128)

theorem encode_of_lt {n : Nat} (h : n < 128) : encode n = [UInt8.ofNat n] := by
  rw [encode, if_pos h]

theorem encode_of_ge {n : Nat} (h : 128 ≤ n) :
    encode n = UInt8.ofNat (n % 128 + 128) :: encode (n / 128) := by
  rw [encode, if_neg (Nat.not_lt.mpr h)]

theorem encode_ne_nil (n : Nat) : encode n ≠ [] := by
  rcases Nat.lt_or_ge n 128 with h | h
  · rw [encode_of_lt h]
    exact List.cons_ne_nil _ _
  · rw [encode_of_ge h]
    exact List.cons_ne_nil _ _

theorem isVarint_encode (n : Nat) : IsVarint (encode n) := by
  induction n using Nat.strong_induction_on with
  | h n ih =>
      rcases Nat.lt_or_ge n 128 with h | h
      · rw [encode_of_lt h]
        apply IsVarint.last
        rw [UInt8.toNat_ofNat']
        omega
      · rw [encode_of_ge h]
        apply IsVarint.more _ (ih _ (by omega))
        rw [UInt8.toNat_ofNat']
        omega

theorem value_encode (n : Nat) : value (encode n) = n := by
  induction n using Nat.strong_induction_on with
  | h n ih =>
      rcases Nat.lt_or_ge n 128 with h | h
      · rw [encode_of_lt h, value, value, UInt8.toNat_ofNat']
        omega
      · rw [encode_of_ge h, value, ih _ (by omega), UInt8.toNat_ofNat']
        omega

theorem encode_injective : Function.Injective encode :=
  Function.LeftInverse.injective value_encode

/-- A number below `128 ^ k` needs at most `k` bytes, and one byte always. -/
theorem length_encode_le {k n : Nat} (h : n < 128 ^ (k + 1)) : (encode n).length ≤ k + 1 := by
  induction k generalizing n with
  | zero =>
      rw [encode_of_lt (by simpa using h)]
      exact Nat.le_refl 1
  | succ k ih =>
      rcases Nat.lt_or_ge n 128 with hn | hn
      · rw [encode_of_lt hn]
        exact Nat.succ_le_succ (Nat.zero_le _)
      · rw [encode_of_ge hn, List.length_cons]
        have hdiv : n / 128 < 128 ^ (k + 1) :=
          Nat.div_lt_of_lt_mul (by rwa [Nat.pow_succ'] at h)
        exact Nat.succ_le_succ (ih hdiv)

theorem value_lt (bytes : List UInt8) : value bytes < 128 ^ bytes.length := by
  induction bytes with
  | nil => exact Nat.one_pos
  | cons byte rest ih =>
      rw [value, List.length_cons, Nat.pow_succ']
      omega

theorem value_append (bytes bytes' : List UInt8) :
    value (bytes ++ bytes') = value bytes + 128 ^ bytes.length * value bytes' := by
  induction bytes with
  | nil => simp [value]
  | cons byte rest ih =>
      rw [List.cons_append, value, value, ih, List.length_cons, Nat.pow_succ', Nat.mul_add,
        ← Nat.mul_assoc, ← Nat.add_assoc]

namespace IsVarint

theorem ne_nil {bytes : List UInt8} (h : IsVarint bytes) : bytes ≠ [] := by
  cases h with
  | last _ => exact List.cons_ne_nil _ _
  | more _ _ => exact List.cons_ne_nil _ _

/-- A varint shows where it ends. -/
theorem append_inj {bytes bytes' rest rest' : List UInt8} (h : IsVarint bytes)
    (h' : IsVarint bytes') (heq : bytes ++ rest = bytes' ++ rest') :
    bytes = bytes' ∧ rest = rest' := by
  induction h generalizing bytes' with
  | last hlast =>
      cases h' with
      | last _ => exact ⟨by rw [(List.cons.inj heq).1], (List.cons.inj heq).2⟩
      | more hmore _ =>
          obtain rfl := (List.cons.inj heq).1
          omega
  | more hmore _ ih =>
      cases h' with
      | last hlast =>
          obtain rfl := (List.cons.inj heq).1
          omega
      | more _ hmore' =>
          obtain ⟨rfl, htail⟩ := List.cons.inj heq
          obtain ⟨rfl, hrest⟩ := ih hmore' htail
          exact ⟨rfl, hrest⟩

/-- Before its end a varint has no byte that could be its last. -/
theorem unfinished {bytes front : List UInt8} (h : IsVarint bytes) (hfront : front <+: bytes)
    (hne : front ≠ bytes) : ∀ byte ∈ front, 128 ≤ byte.toNat := by
  induction h generalizing front with
  | last _ =>
      rcases List.prefix_cons_iff.mp hfront with rfl | ⟨rest, rfl, hrest⟩
      · exact fun _ hmem => absurd hmem List.not_mem_nil
      · exact absurd (by rw [List.prefix_nil.mp hrest]) hne
  | more hmore _ ih =>
      rcases List.prefix_cons_iff.mp hfront with rfl | ⟨rest, rfl, hrest⟩
      · exact fun _ hmem => absurd hmem List.not_mem_nil
      · intro byte hmem
        rcases List.mem_cons.mp hmem with rfl | hmem
        · exact hmore
        · exact ih hrest (fun heq => hne (by rw [heq])) byte hmem

/-- A varint is its last byte after bytes that could not be its last. -/
theorem eq_append_last {bytes : List UInt8} (h : IsVarint bytes) :
    ∃ front last, bytes = front ++ [last] ∧ (∀ byte ∈ front, 128 ≤ byte.toNat) ∧
      last.toNat < 128 := by
  induction h with
  | last hlast => exact ⟨[], _, rfl, fun _ hmem => absurd hmem List.not_mem_nil, hlast⟩
  | more hmore _ ih =>
      obtain ⟨front, last, rfl, hfront, hlast⟩ := ih
      exact ⟨_ :: front, last, rfl, List.forall_mem_cons.mpr ⟨hmore, hfront⟩, hlast⟩

theorem append_last {front : List UInt8} {last : UInt8} (hfront : ∀ byte ∈ front, 128 ≤ byte.toNat)
    (hlast : last.toNat < 128) : IsVarint (front ++ [last]) := by
  induction front with
  | nil => exact .last hlast
  | cons byte rest ih =>
      rw [List.forall_mem_cons] at hfront
      exact .more hfront.1 (ih hfront.2)

end IsVarint

/-- Bytes start with a varint, or none of them could end one. -/
theorem starts_or_unfinished (bytes : List UInt8) :
    (∃ front rest, bytes = front ++ rest ∧ IsVarint front) ∨
      ∀ byte ∈ bytes, 128 ≤ byte.toNat := by
  induction bytes with
  | nil => exact Or.inr fun _ hmem => absurd hmem List.not_mem_nil
  | cons byte rest ih =>
      rcases Nat.lt_or_ge byte.toNat 128 with h | h
      · exact Or.inl ⟨[byte], rest, rfl, .last h⟩
      · rcases ih with ⟨front, after, rfl, hfront⟩ | hrest
        · exact Or.inl ⟨byte :: front, after, rfl, .more h hfront⟩
        · exact Or.inr (List.forall_mem_cons.mpr ⟨h, hrest⟩)

theorem selfDelimiting_encode : SelfDelimiting encode fun _ => True := by
  intro n n' rest rest' _ _ h
  obtain ⟨hencode, hrest⟩ := (isVarint_encode n).append_inj (isVarint_encode n') h
  exact ⟨encode_injective hencode, hrest⟩

/-- Bytes after their number. -/
def delimit (bytes : List UInt8) : List UInt8 :=
  encode bytes.length ++ bytes

theorem selfDelimiting_delimit : SelfDelimiting delimit fun _ => True := by
  intro bytes bytes' rest rest' _ _ h
  rw [delimit, delimit, List.append_assoc, List.append_assoc] at h
  obtain ⟨hlength, hbytes⟩ := selfDelimiting_encode _ _ _ _ trivial trivial h
  exact List.append_inj hbytes hlength

end Varint
