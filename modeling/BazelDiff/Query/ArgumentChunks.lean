/-
# Command lines within a budget

Names are passed to `bazel mod` in as few invocations as a limit on the bytes of a command
line allows. The loop that cuts the list keeps the chunk it is filling and the bytes of it,
and starts a new chunk when the next argument does not fit. What it returns is the packing of
the list within the budget.
-/

import BazelDiff.Lib.Packing
import BazelDiff.Query.Unavailable

namespace BazelDiff

open Text Packing

/-- The bytes of an argument on a command line, with the one that separates it. -/
def argumentCost (argument : String) : Nat :=
  (utf8 argument).length + 1

/-- The chunk being filled comes out first, with whatever it is still given. -/
theorem exists_first_chunk {chunk : List String} (hne : chunk ≠ []) (budget bytes : Nat)
    (arguments : List String) :
    ∃ more runs, chunkFrom budget chunk bytes arguments = (chunk ++ more) :: runs := by
  induction arguments generalizing chunk bytes with
  | nil =>
      rw [chunkFrom, if_neg hne]
      exact ⟨[], [], by rw [List.append_nil]⟩
  | cons argument rest ih =>
      rw [chunkFrom]
      split
      · exact ⟨[], _, by rw [List.append_nil]⟩
      · have hgrown : chunk ++ [argument] ≠ [] := by simp
        obtain ⟨more, runs, hruns⟩ := ih hgrown (bytes + ((utf8 argument).length + 1))
        exact ⟨argument :: more, runs, by rw [hruns, List.append_assoc]; rfl⟩

/-- The loop's invariant: the bytes are those of the chunk being filled, and that chunk is
within the budget unless it has a single argument. What comes out is a packing. -/
theorem isPacking_chunkFrom {budget bytes : Nat} {chunk : List String}
    (hbytes : bytes = runCost argumentCost chunk)
    (hfits : 1 < chunk.length → runCost argumentCost chunk ≤ budget) (arguments : List String) :
    IsPacking argumentCost budget (chunk ++ arguments) (chunkFrom budget chunk bytes arguments) := by
  induction arguments generalizing chunk bytes with
  | nil =>
      rw [chunkFrom, List.append_nil]
      split
      · next hempty =>
          rw [hempty]
          exact isPacking_nil
      · next hne =>
          refine ⟨?_, ?_, ?_, List.isChain_singleton _⟩
          · rw [List.flatten_cons, List.flatten_nil, List.append_nil]
          · intro run hrun
            rwa [List.mem_singleton.mp hrun]
          · intro run hrun
            rwa [List.mem_singleton.mp hrun]
  | cons argument rest ih =>
      rw [chunkFrom]
      split
      · next hfull =>
          have hcost : (utf8 argument).length + 1 = runCost argumentCost [argument] := by
            simp [argumentCost]
          have hrest := ih hcost (by simp)
          obtain ⟨more, runs, hruns⟩ := exists_first_chunk (List.cons_ne_nil argument [])
            budget ((utf8 argument).length + 1) rest
          refine ⟨?_, ?_, ?_, ?_⟩
          · rw [List.flatten_cons, hrest.parts]
            rfl
          · intro run hrun
            rcases List.mem_cons.mp hrun with rfl | hrun
            · exact hfull.1
            · exact hrest.nonempty run hrun
          · intro run hrun
            rcases List.mem_cons.mp hrun with rfl | hrun
            · exact hfits
            · exact hrest.fits run hrun
          · have htight := hrest.tight
            rw [hruns] at htight ⊢
            apply List.isChain_cons_cons.mpr
            refine ⟨?_, htight⟩
            intro first hfirst
            obtain rfl : argument = first := Option.some.inj hfirst
            rw [runCost_append, ← hbytes, ← hcost]
            exact hfull.2
      · next hroom =>
          have hgrown : bytes + ((utf8 argument).length + 1) =
              runCost argumentCost (chunk ++ [argument]) := by
            rw [runCost_append, hbytes]
            simp [argumentCost]
          have hwithin : 1 < (chunk ++ [argument]).length →
              runCost argumentCost (chunk ++ [argument]) ≤ budget := by
            intro hlength
            have hne : chunk ≠ [] := by
              rintro rfl
              simp at hlength
            rw [← hgrown]
            by_contra hover
            exact hroom ⟨hne, not_le.mp hover⟩
          have hpacked := ih hgrown hwithin
          rwa [List.append_assoc] at hpacked

/-- The chunks are the packing of the arguments within the budget, and the only one. -/
theorem chunks_pack_arguments (arguments : List String) (budget : Nat) :
    IsPacking argumentCost budget arguments (chunkArguments arguments budget) ∧
      ∀ runs, IsPacking argumentCost budget arguments runs →
        runs = chunkArguments arguments budget := by
  have hpacked : IsPacking argumentCost budget arguments (chunkArguments arguments budget) :=
    @isPacking_chunkFrom budget 0 [] rfl (by simp) arguments
  constructor
  · exact hpacked
  · intro runs hruns
    exact hruns.unique hpacked

/-- An argument over the budget still travels, on its own. -/
example : chunkArguments ["aaaa", "bbbb", "cccccccccccc", "d"] 10 =
    [["aaaa", "bbbb"], ["cccccccccccc"], ["d"]] := by
  decide

end BazelDiff
