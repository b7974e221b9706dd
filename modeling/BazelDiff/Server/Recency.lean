/-
# What a pass of the pruner leaves

The pruner has three limits: an age, a number of entries and a size. It is meant to leave the
most recent entries that stay below all of them. In a directory nobody else changes this is
what one pass leaves, unless the sizes it has to add up do not fit in 64 bits.
-/

import BazelDiff.Server.Pruning

namespace BazelDiff.Server.Pruning

/-- A cache directory that nobody else changes. -/
@[ext]
structure Directory where
  entries : List CacheEntry
  distinct : (entries.map (·.path)).Nodup
  sizes : ∀ entry ∈ entries, entry.size < 2 ^ 64

/-- The order in which a directory with some entries is listed. -/
structure Listing where
  order : List CacheEntry → List CacheEntry
  perm : ∀ entries, (order entries).Perm entries

namespace Directory

/-- The directory with the entries that satisfy a predicate. -/
def filter (directory : Directory) (p : CacheEntry → Bool) : Directory where
  entries := directory.entries.filter p
  distinct := directory.distinct.sublist (List.filter_sublist.map _)
  sizes entry hentry := directory.sizes entry (List.mem_filter.mp hentry).1

def remove (directory : Directory) (path : String) : Directory :=
  directory.filter fun entry => entry.path ≠ path

end Directory

/-- A whole pass on a directory. -/
def Pass.run (listing : Listing) : Pass → Directory → Directory
  | .done, directory => directory
  | .cacheEntries next, directory =>
      (next (listing.order directory.entries)).run listing directory
  | .remove path next, directory => next.run listing (directory.remove path)

/-! ## What should be left -/

/-- The bytes some entries take. -/
def total (entries : List CacheEntry) : Nat :=
  (entries.map (·.size)).sum

/-- The entries that are not too old. -/
def fresh (limits : PruneLimits) (now : Nat) (entries : List CacheEntry) : List CacheEntry :=
  entries.filter fun entry => limits.maxAge.all fun maxAge => now - entry.modified ≤ maxAge

/-- The last ones of entries that are in order, not more than may be kept. -/
def newest (limits : PruneLimits) (ranked : List CacheEntry) : List CacheEntry :=
  ranked.drop (limits.maxEntries.elim 0 fun maxEntries => ranked.length - maxEntries)

/-- Entries no more than which may be kept take no more bytes than they may. -/
def Fits (limits : PruneLimits) (run : List CacheEntry) : Prop :=
  ∀ maxSize ∈ limits.maxSize, total run ≤ maxSize

/-- A run of entries up to the newest that fits, and no longer one does. -/
structure IsLongestRun (limits : PruneLimits) (run ranked : List CacheEntry) : Prop where
  suffix : run <:+ ranked
  fits : Fits limits run
  longest : ∀ longer, longer <:+ ranked → Fits limits longer → longer.length ≤ run.length

/-- What a pass should leave of the entries of a directory: of the entries that are not too old,
in the order they were modified in, the longest run of the newest. -/
structure KeepsNewest (limits : PruneLimits) (now : Nat) (entries left : List CacheEntry) :
    Prop where
  left_run : ∃ ranked run, ranked.Perm (fresh limits now entries) ∧
    (ranked.Pairwise fun a b => a.modified ≤ b.modified) ∧
    IsLongestRun limits run (newest limits ranked) ∧ left.Perm run
  older_first : ∀ gone ∈ entries, gone ∉ left → ∀ kept ∈ left, gone.modified ≤ kept.modified

/-! ## Removing entries -/

theorem run_removeAll (listing : Listing) (gone : List CacheEntry) (next : Pass)
    (directory : Directory) :
    (Pass.removeAll gone next).run listing directory =
      next.run listing (directory.filter fun entry => entry.path ∉ gone.map (·.path)) := by
  induction gone generalizing directory with
  | nil =>
      have hall : (directory.filter fun entry =>
          entry.path ∉ ([] : List CacheEntry).map (·.path)) = directory := by
        ext1
        simp [Directory.filter]
      rw [hall]
      rfl
  | cons entry gone ih =>
      show (Pass.removeAll gone next).run listing (directory.remove entry.path) = _
      rw [ih]
      congr 1
      ext1
      simp only [Directory.filter, Directory.remove, List.filter_filter, List.map_cons,
        List.mem_cons, not_or]
      apply List.filter_congr
      intro other _
      rw [Bool.and_comm, ← Bool.decide_and]

theorem removeAll_append (gone later : List CacheEntry) (next : Pass) :
    Pass.removeAll (gone ++ later) next = Pass.removeAll gone (Pass.removeAll later next) :=
  List.foldr_append

/-- Without the first entries of a list the others are left, whatever order they come in. -/
theorem filter_perm_of_append {entries gone left : List CacheEntry}
    (hdistinct : (entries.map (·.path)).Nodup) (hperm : entries.Perm (gone ++ left)) :
    (entries.filter fun entry => entry.path ∉ gone.map (·.path)).Perm left := by
  have hnodup : (gone.map (·.path) ++ left.map (·.path)).Nodup := by
    rw [← List.map_append]
    exact (hperm.map _).nodup_iff.mp hdistinct
  have hgone : (gone.filter fun entry => entry.path ∉ gone.map (·.path)) = [] := by
    apply List.filter_eq_nil_iff.mpr
    intro entry hentry
    simpa using ⟨entry, hentry, rfl⟩
  have hleft : (left.filter fun entry => entry.path ∉ gone.map (·.path)) = left := by
    apply List.filter_eq_self.mpr
    intro entry hentry
    apply decide_eq_true
    intro hmem
    exact List.disjoint_of_nodup_append hnodup hmem (List.mem_map_of_mem hentry)
  have hfilter := hperm.filter fun entry => entry.path ∉ gone.map (·.path)
  rw [List.filter_append, hgone, hleft] at hfilter
  exact hfilter

/-- What the limits on the number and the size leave of entries in the order they were modified
in. -/
def leftOf (limits : PruneLimits) (ranked : List CacheEntry) : List CacheEntry :=
  let counted := newest limits ranked
  counted.drop (limits.maxSize.elim [] fun maxSize =>
    oversized maxSize (total counted % 2 ^ 64) counted).length

theorem leftOf_suffix (limits : PruneLimits) (ranked : List CacheEntry) :
    leftOf limits ranked <:+ ranked :=
  (List.drop_suffix _ _).trans (List.drop_suffix _ _)

theorem prefix_oversized (maxSize size : Nat) (entries : List CacheEntry) :
    oversized maxSize size entries <+: entries := by
  induction entries generalizing size with
  | nil => exact List.prefix_refl _
  | cons entry rest ih =>
      rw [oversized]
      split
      · exact (List.prefix_cons_inj entry).mpr (ih _)
      · exact List.nil_prefix

theorem byModified_perm (entries : List CacheEntry) : (byModified entries).Perm entries :=
  List.perm_insertionSort (fun a b : CacheEntry => a.modified ≤ b.modified) entries

theorem byModified_pairwise (entries : List CacheEntry) :
    (byModified entries).Pairwise fun a b => a.modified ≤ b.modified := by
  have : Std.Total fun a b : CacheEntry => a.modified ≤ b.modified :=
    ⟨fun a b => Nat.le_total a.modified b.modified⟩
  have : IsTrans CacheEntry fun a b => a.modified ≤ b.modified := ⟨fun _ _ _ => Nat.le_trans⟩
  exact List.pairwise_insertionSort _ entries

theorem run_pruneExcess (listing : Listing) (limits : PruneLimits) {listed : List CacheEntry}
    {directory : Directory} (h : listed.Perm directory.entries) :
    ((pruneExcess limits listed).run listing directory).entries.Perm
      (leftOf limits (byModified listed)) := by
  have hranked := (byModified_perm listed).trans h
  rw [pruneExcess]
  generalize byModified listed = ranked at hranked ⊢
  obtain ⟨excess, hexcess, hcounted⟩ : ∃ excess,
      (limits.maxEntries.elim [] fun maxEntries => ranked.take (ranked.length - maxEntries)) =
        excess ∧ ranked = excess ++ newest limits ranked := by
    refine ⟨_, rfl, ?_⟩
    rw [newest]
    cases limits.maxEntries with
    | none => rfl
    | some maxEntries => exact (List.take_append_drop _ _).symm
  have hdrop : ranked.drop excess.length = newest limits ranked := by
    conv_lhs => rw [hcounted]
    exact List.drop_left
  rw [hexcess, hdrop, ← removeAll_append, run_removeAll]
  apply filter_perm_of_append directory.distinct
  apply hranked.symm.trans
  rw [List.append_assoc, leftOf]
  conv_lhs => rw [hcounted]
  apply List.Perm.append_left
  cases limits.maxSize with
  | none => exact List.Perm.refl _
  | some maxSize =>
      exact .of_eq (List.prefix_iff_eq_append.mp (prefix_oversized maxSize _ _)).symm

/-- The entries that are left after the old ones are gone, in their order. -/
theorem entries_filter_old (limits : PruneLimits) (now : Nat) {listed : List CacheEntry}
    {directory : Directory} (h : listed.Perm directory.entries) {maxAge : Nat}
    (hmaxAge : limits.maxAge = some maxAge) :
    (directory.filter fun entry => entry.path ∉ ((byModified listed).filter fun entry =>
        maxAge < now - entry.modified).map (·.path)).entries =
      fresh limits now directory.entries := by
  apply List.filter_congr
  intro entry hentry
  rw [hmaxAge, Option.all_some]
  apply decide_eq_decide.mpr
  rw [List.mem_map, ← Nat.not_lt, not_iff_not]
  constructor
  · rintro ⟨other, hother, hpath⟩
    rw [List.mem_filter, mem_byModified] at hother
    have heq := List.inj_on_of_nodup_map directory.distinct (h.mem_iff.mp hother.1) hentry hpath
    rw [← heq]
    exact of_decide_eq_true hother.2
  · intro hold
    exact ⟨entry, List.mem_filter.mpr
      ⟨mem_byModified.mpr (h.mem_iff.mpr hentry), decide_eq_true hold⟩, rfl⟩

/-- A pass leaves what the limits on the number and the size leave of the entries that are not
too old. -/
theorem run_pruneCache (listing : Listing) (limits : PruneLimits) (now : Nat)
    (directory : Directory) :
    ((pruneCache limits now).run listing directory).entries.Perm
      (leftOf limits (byModified (listing.order (fresh limits now directory.entries)))) := by
  rw [pruneCache, Pass.run]
  cases hmaxAge : limits.maxAge with
  | none =>
      have hfresh : fresh limits now directory.entries = directory.entries := by
        rw [fresh, hmaxAge]
        exact List.filter_true _
      rw [hfresh]
      exact run_pruneExcess listing limits (listing.perm _)
  | some maxAge =>
      dsimp only
      rw [run_removeAll, Pass.run, entries_filter_old limits now (listing.perm _) hmaxAge]
      apply run_pruneExcess listing limits
      rw [entries_filter_old limits now (listing.perm _) hmaxAge]
      exact listing.perm _

/-! ## What fits -/

theorem total_cons (entry : CacheEntry) (rest : List CacheEntry) :
    total (entry :: rest) = entry.size + total rest := by
  simp [total]

theorem total_eq_of_perm {entries entries' : List CacheEntry} (h : entries.Perm entries') :
    total entries = total entries' :=
  List.Perm.sum_eq (h.map fun entry => entry.size)

theorem oversized_zero (maxSize : Nat) (entries : List CacheEntry) :
    oversized maxSize 0 entries = [] := by
  cases entries with
  | nil => rfl
  | cons entry rest => rw [oversized, if_neg (Nat.not_lt_zero _)]

/-- When the sum is right, the entries from the oldest on go until the others fit. -/
theorem longestRun_of_total {limits : PruneLimits} {maxSize : Nat}
    (hmaxSize : limits.maxSize = some maxSize) (entries : List CacheEntry) :
    IsLongestRun limits (entries.drop (oversized maxSize (total entries) entries).length)
      entries := by
  induction entries with
  | nil =>
      refine ⟨List.suffix_refl _, ?_, ?_⟩
      · intro _ _
        exact Nat.zero_le _
      · intro longer hlonger _
        exact hlonger.length_le
  | cons entry rest ih =>
      rw [oversized]
      split_ifs with hover
      · rw [total_cons, Nat.add_sub_cancel_left, List.length_cons, List.drop_succ_cons]
        refine ⟨ih.suffix.trans (List.suffix_cons _ _), ih.fits, ?_⟩
        intro longer hlonger hfits
        rcases List.suffix_cons_iff.mp hlonger with rfl | hrest
        · have hle := hfits maxSize hmaxSize
          omega
        · exact ih.longest longer hrest hfits
      · refine ⟨List.suffix_refl _, ?_, ?_⟩
        · intro size hsize
          rw [hmaxSize] at hsize
          obtain rfl := Option.mem_some_iff.mp hsize
          exact Nat.not_lt.mp hover
        · intro longer hlonger _
          exact hlonger.length_le

/-- When the sum is too small by a whole turn, what is left does not fit. -/
theorem not_fits_of_wrapped {maxSize size : Nat} (hmaxSize : maxSize < 2 ^ 64)
    {entries : List CacheEntry} (hsizes : ∀ entry ∈ entries, entry.size < 2 ^ 64)
    (h : size + 2 ^ 64 ≤ total entries) :
    maxSize < total (entries.drop (oversized maxSize size entries).length) := by
  induction entries generalizing size with
  | nil => exact absurd h (by simp [total])
  | cons entry rest ih =>
      rw [List.forall_mem_cons] at hsizes
      rw [total_cons] at h
      rw [oversized]
      split_ifs with hover
      · rw [List.length_cons, List.drop_succ_cons]
        rcases Nat.le_total entry.size size with hle | hle
        · exact ih hsizes.2 (by omega)
        · rw [Nat.sub_eq_zero_of_le hle, oversized_zero, List.length_nil, List.drop_zero]
          omega
      · rw [List.length_nil, List.drop_zero, total_cons]
        omega

/-! ## What a pass leaves -/

theorem newest_suffix (limits : PruneLimits) (ranked : List CacheEntry) :
    newest limits ranked <:+ ranked :=
  List.drop_suffix _ _

/-- The limits on the number and the size leave the longest run that fits when the sizes can be
added up. -/
theorem leftOf_longestRun {limits : PruneLimits} {ranked : List CacheEntry}
    (h : limits.maxSize = none ∨ total (newest limits ranked) < 2 ^ 64) :
    IsLongestRun limits (leftOf limits ranked) (newest limits ranked) := by
  rw [leftOf]
  cases hmaxSize : limits.maxSize with
  | none =>
      refine ⟨List.suffix_refl _, ?_, ?_⟩
      · intro maxSize hmem
        rw [hmaxSize] at hmem
        cases hmem
      · intro longer hlonger _
        exact hlonger.length_le
  | some maxSize =>
      rw [hmaxSize] at h
      rw [Nat.mod_eq_of_lt (h.resolve_left (Option.some_ne_none _))]
      exact longestRun_of_total hmaxSize _

/-- Otherwise they leave too much. -/
theorem leftOf_not_fits {limits : PruneLimits} {ranked : List CacheEntry} {maxSize : Nat}
    (hmaxSize : limits.maxSize = some maxSize) (hlt : maxSize < 2 ^ 64)
    (hsizes : ∀ entry ∈ ranked, entry.size < 2 ^ 64)
    (h : 2 ^ 64 ≤ total (newest limits ranked)) : maxSize < total (leftOf limits ranked) := by
  rw [leftOf, hmaxSize]
  apply not_fits_of_wrapped hlt
  · intro entry hentry
    exact hsizes entry ((newest_suffix limits ranked).subset hentry)
  · have hturn := Nat.div_add_mod (total (newest limits ranked)) (2 ^ 64)
    have hpos : 0 < total (newest limits ranked) / 2 ^ 64 := Nat.div_pos h (by decide)
    omega

/-- With every limit and whatever the sizes add up to, an entry goes before a more recent one. -/
theorem older_first (listing : Listing) (limits : PruneLimits) (now : Nat)
    (directory : Directory) {gone kept : CacheEntry} (hgone : gone ∈ directory.entries)
    (hleft : gone ∉ ((pruneCache limits now).run listing directory).entries)
    (hkept : kept ∈ ((pruneCache limits now).run listing directory).entries) :
    gone.modified ≤ kept.modified := by
  have hrun := run_pruneCache listing limits now directory
  rw [hrun.mem_iff] at hleft hkept
  have hranked := (byModified_perm (listing.order (fresh limits now directory.entries))).trans
    (listing.perm _)
  have hpairwise := byModified_pairwise (listing.order (fresh limits now directory.entries))
  generalize byModified (listing.order (fresh limits now directory.entries)) = ranked at *
  obtain ⟨before, hbefore⟩ := leftOf_suffix limits ranked
  rw [← hbefore, List.pairwise_append] at hpairwise
  by_cases hfresh : gone ∈ fresh limits now directory.entries
  · have hmem := hranked.mem_iff.mpr hfresh
    rw [← hbefore, List.mem_append] at hmem
    exact hpairwise.2.2 gone (hmem.resolve_right hleft) kept hkept
  · have hkeptFresh := hranked.mem_iff.mp ((leftOf_suffix limits ranked).subset hkept)
    rw [fresh, List.mem_filter] at hfresh hkeptFresh
    cases hmaxAge : limits.maxAge with
    | none =>
        rw [hmaxAge] at hfresh
        exact absurd ⟨hgone, rfl⟩ hfresh
    | some maxAge =>
        rw [hmaxAge] at hfresh hkeptFresh
        have hyoung := of_decide_eq_true hkeptFresh.2
        have hold : ¬ now - gone.modified ≤ maxAge := fun hle =>
          hfresh ⟨hgone, decide_eq_true hle⟩
        omega

/-- A pass leaves what it should exactly when there is no limit on the size or the entries that
are neither too old nor too many have sizes that can be added up. -/
theorem pass_keeps_newest_iff (listing : Listing) (limits : PruneLimits) (now : Nat)
    (directory : Directory) (hlimit : ∀ maxSize ∈ limits.maxSize, maxSize < 2 ^ 64) :
    KeepsNewest limits now directory.entries
        ((pruneCache limits now).run listing directory).entries ↔
      limits.maxSize = none ∨
        total (newest limits (byModified (listing.order (fresh limits now directory.entries)))) <
          2 ^ 64 := by
  have hrun := run_pruneCache listing limits now directory
  have hranked := (byModified_perm (listing.order (fresh limits now directory.entries))).trans
    (listing.perm _)
  have hpairwise := byModified_pairwise (listing.order (fresh limits now directory.entries))
  generalize byModified (listing.order (fresh limits now directory.entries)) = ranked at *
  constructor
  · rintro ⟨⟨ranked', run, -, -, hlongest, hleft⟩, -⟩
    cases hmaxSize : limits.maxSize with
    | none => exact Or.inl rfl
    | some maxSize =>
        right
        by_contra hover
        have hsizes : ∀ entry ∈ ranked, entry.size < 2 ^ 64 := by
          intro entry hentry
          exact directory.sizes entry (List.mem_filter.mp (hranked.mem_iff.mp hentry)).1
        have hlarge := leftOf_not_fits hmaxSize (hlimit maxSize hmaxSize) hsizes
          (Nat.le_of_not_lt hover)
        have hfits := hlongest.fits maxSize hmaxSize
        have htotal := total_eq_of_perm (hrun.symm.trans hleft)
        omega
  · intro h
    refine ⟨⟨ranked, leftOf limits ranked, hranked, hpairwise, leftOf_longestRun h, hrun⟩, ?_⟩
    intro gone hgone hleft kept hkept
    exact older_first listing limits now directory hgone hleft hkept

/-- The entries come as they are. -/
def asListed : Listing where
  order entries := entries
  perm := .refl

/-- Three entries that are too much for a limit of two bytes. -/
def smallEntries : Directory where
  entries := [⟨"a.json", 1, 0⟩, ⟨"b.json", 1, 0⟩, ⟨"c.json", 1, 5⟩]
  distinct := by decide
  sizes := by decide

/-- The entry that was modified last stays, with one of the two others. -/
theorem pass_keeps_newest_small :
    KeepsNewest ⟨some 9, some 3, some 2⟩ 7 smallEntries.entries
      ((pruneCache ⟨some 9, some 3, some 2⟩ 7).run asListed smallEntries).entries :=
  (pass_keeps_newest_iff asListed ⟨some 9, some 3, some 2⟩ 7 smallEntries (by decide)).mpr
    (Or.inr (by decide))

/-- Three sparse entries of the largest size a file has. -/
def largeEntries : Directory where
  entries := [⟨"a.json", 2 ^ 63 - 1, 0⟩, ⟨"b.json", 2 ^ 63 - 1, 1⟩, ⟨"c.json", 2 ^ 63 - 1, 2⟩]
  distinct := by decide
  sizes := by decide

/-- The sizes add up to less than the limit that only one entry stays below, and all stay. -/
theorem large_entries_all_stay :
    ((pruneCache ⟨none, none, some (2 ^ 63 - 1)⟩ 3).run asListed largeEntries).entries =
        largeEntries.entries ∧
      ¬ KeepsNewest ⟨none, none, some (2 ^ 63 - 1)⟩ 3 largeEntries.entries
        ((pruneCache ⟨none, none, some (2 ^ 63 - 1)⟩ 3).run asListed largeEntries).entries := by
  have hall : ((pruneCache ⟨none, none, some (2 ^ 63 - 1)⟩ 3).run asListed
      largeEntries).entries = largeEntries.entries := by
    rfl
  refine ⟨hall, ?_⟩
  rintro ⟨⟨ranked, run, -, -, hlongest, hleft⟩, -⟩
  have hfits := hlongest.fits (2 ^ 63 - 1) rfl
  rw [hall] at hleft
  rw [← total_eq_of_perm hleft] at hfits
  revert hfits
  decide

end BazelDiff.Server.Pruning
