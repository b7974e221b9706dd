/-
# Arithmetic of 64-bit numbers

Numbers of 64 bits as naturals: a checked operation has no result outside of the range, and a
saturating one stays at its end.
-/

import Mathlib.Algebra.GroupWithZero.Nat
import Mathlib.Tactic.SplitIfs

namespace Unsigned

/-- The sum of two numbers, unless it overflows. -/
def checkedAdd (a b : Nat) : Option Nat :=
  if a + b < 2 ^ 64 then some (a + b) else none

/-- The difference of two numbers, unless it underflows. -/
def checkedSub (a b : Nat) : Option Nat :=
  if b ≤ a then some (a - b) else none

def saturatingMul (a b : Nat) : Nat :=
  min (a * b) (2 ^ 64 - 1)

theorem checkedAdd_of_lt {a b : Nat} (h : a + b < 2 ^ 64) : checkedAdd a b = some (a + b) :=
  if_pos h

theorem checkedSub_add_left (a b : Nat) : checkedSub (a + b) a = some b := by
  rw [checkedSub, if_pos (Nat.le_add_right _ _), Nat.add_sub_cancel_left]

theorem checkedAdd_bind_eq_some_iff {a b c : Nat} {next : Nat → Option Nat} :
    checkedAdd a b >>= next = some c ↔ a + b < 2 ^ 64 ∧ next (a + b) = some c := by
  rw [checkedAdd]
  split_ifs with hfits
  · exact ⟨fun h => ⟨hfits, h⟩, And.right⟩
  · exact ⟨fun h => (nomatch h), fun h => absurd h.1 hfits⟩

end Unsigned
