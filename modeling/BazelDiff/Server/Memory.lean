/-
# The in-memory tier

Parsed entries stand in one list, least recently used first, beside a running total of their
sizes. The total is kept by hand across hits, replacements and evictions; it stays the sum of
the sizes and within the budget, so its subtractions never underflow, and an insert evicts the
least recently used entries, no more of them than it needs. An entry too large for the budget
is not kept, and then the value it should have replaced stays.
-/

import BazelDiff.Lib.Transition
import BazelDiff.Lib.Unsigned
import Mathlib.Algebra.BigOperators.Group.List.Basic
import Mathlib.Data.List.Nodup

namespace BazelDiff

open Unsigned

variable {V : Type}

structure MemoryEntry (V : Type) where
  key : String
  bytes : Nat
  data : V
  deriving DecidableEq

structure MemoryCache (V : Type) where
  budget : Nat
  used : Nat
  entries : List (MemoryEntry V)
  deriving DecidableEq

namespace MemoryCache

def new (budget : Nat) : MemoryCache V :=
  ⟨budget, 0, []⟩

def keys (cache : MemoryCache V) : List String :=
  cache.entries.map (·.key)

/-- The entry for `key`, which becomes the most recently used. -/
def get (cache : MemoryCache V) (key : String) : Option V × MemoryCache V :=
  match cache.entries.find? (·.key == key) with
  | none => (none, cache)
  | some entry =>
      (some entry.data,
        { cache with entries := cache.entries.eraseP (·.key == key) ++ [entry] })

/-- The loop that makes room for `bytes`. -/
def evict (budget bytes : Nat) : Nat → List (MemoryEntry V) → Option (Nat × List (MemoryEntry V))
  | used, [] => (checkedAdd used bytes).map fun _ => (used, [])
  | used, evicted :: rest =>
      (checkedAdd used bytes).bind fun total =>
        if total ≤ budget then some (used, evicted :: rest)
        else (checkedSub used evicted.bytes).bind fun used => evict budget bytes used rest

/-- The total without the entry an insert for `key` replaces. -/
def usedWithout (cache : MemoryCache V) (key : String) : Option Nat :=
  match cache.entries.find? (·.key == key) with
  | none => some cache.used
  | some previous => checkedSub cache.used previous.bytes

/-- Remember `data` for `key`, evicting least recently used entries to stay within budget. An
entry larger than the whole budget is not kept. Nothing comes back if a total leaves 64 bits. -/
def insert (cache : MemoryCache V) (key : String) (bytes : Nat) (data : V) :
    Option (MemoryCache V) :=
  if cache.budget < bytes then some cache
  else
    (cache.usedWithout key).bind fun used =>
      (evict cache.budget bytes used (cache.entries.eraseP (·.key == key))).bind
        fun (used, kept) =>
          (checkedAdd used bytes).map fun used =>
            ⟨cache.budget, used, kept ++ [⟨key, bytes, data⟩]⟩

end MemoryCache

/-- A call on the tier. -/
inductive MemoryCall (V : Type)
  | get (key : String)
  | insert (key : String) (bytes : Nat) (data : V)

/-- The tier after a call. -/
def MemoryCache.call (cache : MemoryCache V) : MemoryCall V → Option (MemoryCache V)
  | .get key => some (cache.get key).2
  | .insert key bytes data => cache.insert key bytes data

/-- The key a call uses: that of an entry it finds or keeps. -/
def MemoryCache.usedKey (cache : MemoryCache V) : MemoryCall V → Option String
  | .get key => if key ∈ cache.keys then some key else none
  | .insert key bytes _ => if bytes ≤ cache.budget then some key else none

/-- The tier beside the keys used so far, the latest first. -/
structure TrackedCache (V : Type) where
  cache : MemoryCache V
  uses : List String

def TrackedCache.step (state : TrackedCache V) (call : MemoryCall V) (next : TrackedCache V) : Prop :=
  state.cache.call call = some next.cache ∧
    next.uses = (state.cache.usedKey call).toList ++ state.uses

/-! ## Sizes -/

namespace MemoryCache

/-- The sum of the entries' sizes. -/
def total (entries : List (MemoryEntry V)) : Nat :=
  (entries.map (·.bytes)).sum

@[simp]
theorem total_nil : total ([] : List (MemoryEntry V)) = 0 := rfl

@[simp]
theorem total_cons (entry : MemoryEntry V) (entries : List (MemoryEntry V)) :
    total (entry :: entries) = entry.bytes + total entries := by
  simp [total]

@[simp]
theorem total_append (front back : List (MemoryEntry V)) :
    total (front ++ back) = total front + total back := by
  simp [total]

/-- The books are right: one entry for a key, and the total of the sizes within the budget. -/
structure Accounted (cache : MemoryCache V) : Prop where
  keys : cache.keys.Nodup
  used : cache.used = total cache.entries
  within : cache.used ≤ cache.budget

/-- What making room leaves: the shortest front is dropped after which the new entry fits. -/
theorem evict_eq {budget bytes : Nat} {entries : List (MemoryEntry V)} (hfits : bytes ≤ budget)
    (hsize : total entries + bytes < 2 ^ 64) :
    ∃ dropped kept, entries = dropped ++ kept ∧
      evict budget bytes (total entries) entries = some (total kept, kept) ∧
      total kept + bytes ≤ budget ∧
      ∀ older entry newer, dropped = older ++ entry :: newer →
        budget < total (entry :: newer ++ kept) + bytes := by
  induction entries with
  | nil =>
      refine ⟨[], [], rfl, ?_, by simpa using hfits, by simp⟩
      rw [evict, checkedAdd_of_lt hsize]
      rfl
  | cons first rest ih =>
      rw [total_cons] at hsize
      by_cases hroom : total (first :: rest) + bytes ≤ budget
      · refine ⟨[], first :: rest, rfl, ?_, hroom, by simp⟩
        rw [evict, checkedAdd_of_lt (by rw [total_cons]; exact hsize), Option.bind_some,
          if_pos hroom]
      · obtain ⟨dropped, kept, hrest, hevict, hkept, hneeded⟩ := ih (by omega)
        refine ⟨first :: dropped, kept, by rw [hrest]; rfl, ?_, hkept, ?_⟩
        · have hsub : checkedSub (total (first :: rest)) first.bytes = some (total rest) := by
            rw [total_cons, checkedSub_add_left]
          rw [evict, checkedAdd_of_lt (by rw [total_cons]; exact hsize), Option.bind_some,
            if_neg hroom, hsub, Option.bind_some, hevict]
        · intro older entry newer hsplit
          cases older with
          | nil =>
              obtain ⟨rfl, rfl⟩ := List.cons.inj hsplit
              rw [List.cons_append, ← hrest]
              exact Nat.lt_of_not_le hroom
          | cons other older => exact hneeded older entry newer (List.cons.inj hsplit).2

/-- The entries an access to a key leaves in place. -/
def others (cache : MemoryCache V) (key : String) : List (MemoryEntry V) :=
  cache.entries.filter fun entry => entry.key ≠ key

theorem others_eq_self {cache : MemoryCache V} {key : String} (h : key ∉ cache.keys) :
    cache.others key = cache.entries := by
  apply List.filter_eq_self.mpr
  intro entry hentry
  rw [decide_eq_true_eq]
  rintro rfl
  exact h (List.mem_map_of_mem hentry)

/-- Around its only entry, the others of a key are what stands before and after it. -/
theorem others_eq_of_split {cache : MemoryCache V} (hkeys : cache.keys.Nodup)
    {front back : List (MemoryEntry V)} {entry : MemoryEntry V}
    (hsplit : cache.entries = front ++ entry :: back) :
    cache.others entry.key = front ++ back ∧
      cache.entries.eraseP (·.key == entry.key) = front ++ back := by
  rw [keys, hsplit, List.map_append, List.map_cons, List.nodup_middle] at hkeys
  obtain ⟨hentry, -⟩ := List.nodup_cons.mp hkeys
  have hne : ∀ other ∈ front ++ back, other.key ≠ entry.key := by
    intro other hother heq
    apply hentry
    rw [← List.map_append, ← heq]
    exact List.mem_map_of_mem hother
  constructor
  · rw [others, hsplit, List.filter_append, List.filter_cons_of_neg (by simp), ← List.filter_append]
    apply List.filter_eq_self.mpr
    intro other hother
    rw [decide_eq_true_eq]
    exact hne other hother
  · rw [hsplit, List.eraseP_append_right, List.eraseP_cons_of_pos (by simp)]
    intro other hother
    rw [beq_iff_eq]
    exact hne other (List.mem_append_left _ hother)

/-- The first entry found for a key stands somewhere, under that key. -/
theorem exists_split_of_find? {cache : MemoryCache V} {key : String} {entry : MemoryEntry V}
    (h : cache.entries.find? (·.key == key) = some entry) :
    entry.key = key ∧ ∃ front back, cache.entries = front ++ entry :: back :=
  ⟨by simpa using List.find?_some h, List.append_of_mem (List.mem_of_find?_eq_some h)⟩

theorem key_notMem_of_find? {cache : MemoryCache V} {key : String}
    (h : cache.entries.find? (·.key == key) = none) : key ∉ cache.keys := by
  intro hmem
  obtain ⟨entry, hentry, rfl⟩ := List.mem_map.mp hmem
  simpa using List.find?_eq_none.mp h entry hentry

theorem eraseP_eq_others {cache : MemoryCache V} (hkeys : cache.keys.Nodup) (key : String) :
    cache.entries.eraseP (·.key == key) = cache.others key := by
  cases hfind : cache.entries.find? (·.key == key) with
  | none =>
      rw [others_eq_self (key_notMem_of_find? hfind)]
      exact List.eraseP_of_forall_not (List.find?_eq_none.mp hfind)
  | some entry =>
      obtain ⟨rfl, front, back, hsplit⟩ := exists_split_of_find? hfind
      obtain ⟨hothers, herase⟩ := others_eq_of_split hkeys hsplit
      rw [hothers, herase]

/-- Whether or not an insert replaces an entry, it goes on with the others and their total. -/
theorem Accounted.without {cache : MemoryCache V} (h : cache.Accounted) (key : String) :
    cache.usedWithout key = some (total (cache.others key)) ∧
      total (cache.others key) ≤ cache.budget := by
  have hwithin := h.within
  rw [h.used] at hwithin
  rw [usedWithout, h.used]
  cases hfind : cache.entries.find? (·.key == key) with
  | none =>
      rw [others_eq_self (key_notMem_of_find? hfind)]
      exact ⟨rfl, hwithin⟩
  | some entry =>
      obtain ⟨rfl, front, back, hsplit⟩ := exists_split_of_find? hfind
      have htotal : total cache.entries = entry.bytes + total (front ++ back) := by
        rw [hsplit, total_append, total_append, total_cons]
        omega
      rw [htotal] at hwithin
      rw [(others_eq_of_split h.keys hsplit).1, htotal]
      refine ⟨?_, by omega⟩
      exact checkedSub_add_left _ _

/-! ## What a call does -/

/-- An insert that fits drops the shortest front of the other entries that makes room. -/
theorem Accounted.insert_eq {cache : MemoryCache V} (h : cache.Accounted)
    (hbudget : cache.budget < 2 ^ 63) (key : String) {bytes : Nat} (hfits : bytes ≤ cache.budget)
    (data : V) :
    ∃ dropped kept, cache.others key = dropped ++ kept ∧
      cache.insert key bytes data =
        some ⟨cache.budget, total kept + bytes, kept ++ [⟨key, bytes, data⟩]⟩ ∧
      total kept + bytes ≤ cache.budget ∧
      ∀ older entry newer, dropped = older ++ entry :: newer →
        cache.budget < total (entry :: newer ++ kept) + bytes := by
  obtain ⟨hused, htotal⟩ := h.without key
  have hpow : (2 : Nat) ^ 64 = 2 ^ 63 + 2 ^ 63 := rfl
  obtain ⟨dropped, kept, hothers, hevict, hkept, hneeded⟩ :=
    @evict_eq V cache.budget bytes (cache.others key) hfits (by omega)
  refine ⟨dropped, kept, hothers, ?_, hkept, hneeded⟩
  have hadd : checkedAdd (total kept) bytes = some (total kept + bytes) :=
    checkedAdd_of_lt (by omega)
  rw [MemoryCache.insert, if_neg (Nat.not_lt.mpr hfits), hused, Option.bind_some,
    eraseP_eq_others h.keys, hevict, Option.bind_some]
  show (checkedAdd (total kept) bytes).map _ = _
  rw [hadd]
  rfl

/-- A hit moves its entry to the end. -/
theorem get_cases {cache : MemoryCache V} (hkeys : cache.keys.Nodup) (key : String) :
    (key ∉ cache.keys ∧ cache.get key = (none, cache)) ∨
      ∃ front entry back, cache.entries = front ++ entry :: back ∧ entry.key = key ∧
        cache.get key = (some entry.data, { cache with entries := front ++ back ++ [entry] }) := by
  rw [get]
  cases hfind : cache.entries.find? (·.key == key) with
  | none => exact Or.inl ⟨key_notMem_of_find? hfind, rfl⟩
  | some entry =>
      obtain ⟨rfl, front, back, hsplit⟩ := exists_split_of_find? hfind
      refine Or.inr ⟨front, entry, back, hsplit, rfl, ?_⟩
      show (some entry.data, _) = _
      rw [(others_eq_of_split hkeys hsplit).2]

/-- An entry put at the end of some others leaves one entry for each key. -/
theorem nodup_append_last {entries kept : List (MemoryEntry V)} {last : MemoryEntry V}
    (hkeys : (entries.map (·.key)).Nodup) (hkept : List.Sublist kept entries)
    (hlast : ∀ entry ∈ kept, entry.key ≠ last.key) :
    ((kept ++ [last]).map (·.key)).Nodup := by
  rw [List.map_append, List.map_singleton, List.nodup_append]
  refine ⟨hkeys.sublist (hkept.map _), List.nodup_singleton _, ?_⟩
  intro key hkey key' hkey' heq
  obtain ⟨entry, hentry, rfl⟩ := List.mem_map.mp hkey
  exact hlast entry hentry (heq.trans (List.mem_singleton.mp hkey'))

theorem others_sublist (cache : MemoryCache V) (key : String) :
    List.Sublist (cache.others key) cache.entries :=
  List.filter_sublist

theorem key_ne_of_mem_others {cache : MemoryCache V} {key : String} {entry : MemoryEntry V}
    (h : entry ∈ cache.others key) : entry.key ≠ key := by
  simpa using (List.mem_filter.mp h).2

/-- What a call can do to the list: nothing, when it uses no entry; or drop a front of the
other entries and put the used one at the end. Only an insert drops any. -/
theorem Accounted.call_cases {cache : MemoryCache V} (h : cache.Accounted)
    (hbudget : cache.budget < 2 ^ 63) (call : MemoryCall V) :
    ∃ next, cache.call call = some next ∧ next.Accounted ∧ next.budget = cache.budget ∧
      (cache.usedKey call = none ∧ next = cache ∨
        ∃ dropped kept last, cache.usedKey call = some last.key ∧
          cache.others last.key = dropped ++ kept ∧ next.entries = kept ++ [last] ∧
          (dropped ≠ [] → ∃ bytes data, call = .insert last.key bytes data ∧
            ∀ older entry newer, dropped = older ++ entry :: newer →
              cache.budget < total (entry :: newer ++ kept) + bytes)) := by
  cases call with
  | get key =>
      rcases get_cases h.keys key with ⟨hkey, hget⟩ | ⟨front, entry, back, hsplit, rfl, hget⟩
      · refine ⟨cache, ?_, h, rfl, Or.inl ⟨?_, rfl⟩⟩
        · rw [MemoryCache.call, hget]
        · rw [usedKey, if_neg hkey]
      · have hothers := (others_eq_of_split h.keys hsplit).1
        have hmem : entry.key ∈ cache.keys := by
          rw [MemoryCache.keys, hsplit]
          simp
        refine ⟨{ cache with entries := front ++ back ++ [entry] }, ?_, ⟨?_, ?_, h.within⟩, rfl,
          Or.inr ⟨[], front ++ back, entry, ?_, hothers, rfl, fun hne => absurd rfl hne⟩⟩
        · rw [MemoryCache.call, hget]
        · apply nodup_append_last h.keys (hothers ▸ others_sublist cache entry.key)
          intro other hother
          exact key_ne_of_mem_others (hothers ▸ hother)
        · show cache.used = _
          rw [h.used, hsplit]
          simp only [total_append, total_cons, total_nil]
          omega
        · rw [usedKey, if_pos hmem]
  | insert key bytes data =>
      by_cases hfits : bytes ≤ cache.budget
      · obtain ⟨dropped, kept, hothers, hinsert, hkept, hneeded⟩ :=
          h.insert_eq hbudget key hfits data
        have hsub : List.Sublist kept cache.entries :=
          (hothers ▸ List.sublist_append_right dropped kept).trans (others_sublist cache key)
        refine ⟨_, hinsert, ⟨?_, ?_, hkept⟩, rfl, Or.inr ⟨dropped, kept, ⟨key, bytes, data⟩, ?_,
          hothers, rfl, fun _ => ⟨bytes, data, rfl, hneeded⟩⟩⟩
        · apply nodup_append_last h.keys hsub
          intro other hother
          have hmem : other ∈ cache.others key := hothers ▸ List.mem_append_right _ hother
          exact key_ne_of_mem_others hmem
        · simp
        · rw [usedKey, if_pos hfits]
      · refine ⟨cache, ?_, h, rfl, Or.inl ⟨?_, rfl⟩⟩
        · rw [MemoryCache.call, MemoryCache.insert, if_pos (Nat.lt_of_not_le hfits)]
        · rw [usedKey, if_neg hfits]

end MemoryCache

/-- The tier with its books right, and a budget that leaves room to add two sizes. -/
structure MemoryTier (V : Type) where
  cache : MemoryCache V
  accounted : cache.Accounted
  bounded : cache.budget < 2 ^ 63

namespace MemoryTier

theorem call_isSome (tier : MemoryTier V) (call : MemoryCall V) :
    (tier.cache.call call).isSome = true := by
  obtain ⟨next, hcall, -⟩ := tier.accounted.call_cases tier.bounded call
  rw [hcall]
  rfl

/-- The tier after a call: its totals stay in range, so there always is one. -/
def call (tier : MemoryTier V) (call : MemoryCall V) : MemoryTier V where
  cache := (tier.cache.call call).get (tier.call_isSome call)
  accounted := by
      obtain ⟨next, hcall, haccounted, -⟩ := tier.accounted.call_cases tier.bounded call
      rw [Option.get_of_eq_some _ hcall]
      exact haccounted
  bounded := by
      obtain ⟨next, hcall, -, hbudget, -⟩ := tier.accounted.call_cases tier.bounded call
      rw [Option.get_of_eq_some _ hcall, hbudget]
      exact tier.bounded

def start (budget : Nat) (h : budget < 2 ^ 63) : MemoryTier V where
  cache := .new budget
  accounted := ⟨List.nodup_nil, rfl, Nat.zero_le _⟩
  bounded := h

end MemoryTier

/-! ## The order of use -/

namespace TrackedCache

def start (budget : Nat) : TrackedCache V :=
  ⟨.new budget, []⟩

/-- How many other keys were used since a key last was. -/
def age (state : TrackedCache V) (key : String) : Nat :=
  state.uses.idxOf key

/-- The books are right, and the entries stand in the order they were last used in. -/
structure Orderly (budget : Nat) (state : TrackedCache V) : Prop where
  accounted : state.cache.Accounted
  budget : state.cache.budget = budget
  ordered : state.cache.entries.Pairwise fun entry later =>
    state.age later.key < state.age entry.key

/-- An entry is evicted by an insert only: one that does not fit beside the entry and what was
used since. What was used before the entry has then been evicted too. -/
def EvictsOldest (state : TrackedCache V) (call : MemoryCall V) (next : TrackedCache V) : Prop :=
  ∀ entry ∈ state.cache.entries, entry.key ∉ next.cache.keys →
    ∃ key bytes data, call = .insert key bytes data ∧
      state.cache.budget < MemoryCache.total (state.cache.entries.filter fun other =>
        other.key ≠ key ∧ state.age other.key ≤ state.age entry.key) + bytes ∧
      ∀ older ∈ state.cache.entries, state.age entry.key < state.age older.key →
        older.key = key ∨ older.key ∉ next.cache.keys

theorem orderly_start (budget : Nat) : (start budget : TrackedCache V).Orderly budget where
  accounted := ⟨List.nodup_nil, rfl, Nat.zero_le _⟩
  budget := rfl
  ordered := List.Pairwise.nil

/-- Using a key makes every other one older. -/
theorem ordered_use {uses : List String} {key : String} {entries : List (MemoryEntry V)}
    (hordered : entries.Pairwise fun entry later => uses.idxOf later.key < uses.idxOf entry.key)
    {kept : List (MemoryEntry V)} (hkept : List.Sublist kept entries)
    (hothers : ∀ entry ∈ kept, entry.key ≠ key) {last : MemoryEntry V} (hlast : last.key = key) :
    (kept ++ [last]).Pairwise fun entry later =>
      (key :: uses).idxOf later.key < (key :: uses).idxOf entry.key := by
  have holder : ∀ entry ∈ kept, (key :: uses).idxOf entry.key = uses.idxOf entry.key + 1 :=
    fun entry hentry => List.idxOf_cons_ne _ (hothers entry hentry).symm
  rw [List.pairwise_append]
  refine ⟨?_, List.pairwise_singleton _ _, ?_⟩
  · apply (hordered.sublist hkept).imp_of_mem
    intro entry later hentry hlater hage
    rw [holder entry hentry, holder later hlater]
    exact Nat.succ_lt_succ hage
  · intro entry hentry other hother
    rw [List.mem_singleton.mp hother, hlast, holder entry hentry, List.idxOf_cons_self]
    exact Nat.succ_pos _

/-- No total underflows or overflows. -/
theorem Orderly.progress {budget : Nat} (hbudget : budget < 2 ^ 63) {state : TrackedCache V}
    (h : state.Orderly budget) (call : MemoryCall V) : ∃ next, state.step call next := by
  obtain ⟨cache, hcall, -⟩ := h.accounted.call_cases (h.budget ▸ hbudget) call
  exact ⟨⟨cache, (state.cache.usedKey call).toList ++ state.uses⟩, hcall, rfl⟩

/-- In an orderly list, what stands from an entry on was used as lately as the entry. -/
theorem filter_age {state : TrackedCache V} {entries older newer : List (MemoryEntry V)}
    {entry : MemoryEntry V} (hsplit : entries = older ++ entry :: newer)
    (hordered : entries.Pairwise fun entry later => state.age later.key < state.age entry.key) :
    (∀ other ∈ older, state.age entry.key < state.age other.key) ∧
      entries.filter (fun other => state.age other.key ≤ state.age entry.key) = entry :: newer := by
  subst hsplit
  obtain ⟨-, hlater, hacross⟩ := List.pairwise_append.mp hordered
  have holder : ∀ other ∈ older, state.age entry.key < state.age other.key :=
    fun other hother => hacross other hother entry List.mem_cons_self
  refine ⟨holder, ?_⟩
  have hdrop : older.filter (fun other => state.age other.key ≤ state.age entry.key) = [] := by
    apply List.filter_eq_nil_iff.mpr
    intro other hother
    rw [decide_eq_true_eq, Nat.not_le]
    exact holder other hother
  rw [List.filter_append, hdrop, List.nil_append]
  apply List.filter_eq_self.mpr
  intro other hother
  rw [decide_eq_true_eq]
  rcases List.mem_cons.mp hother with rfl | hother
  · exact Nat.le_refl _
  · exact Nat.le_of_lt ((List.pairwise_cons.mp hlater).1 other hother)

/-- A call keeps the order and evicts the oldest. -/
theorem Orderly.step {budget : Nat} (hbudget : budget < 2 ^ 63) {state next : TrackedCache V}
    {call : MemoryCall V} (h : state.Orderly budget) (hstep : state.step call next) :
    next.Orderly budget ∧ state.EvictsOldest call next := by
  obtain ⟨hcall, huses⟩ := hstep
  obtain ⟨cache, hcache, haccounted, hkeeps, hcases⟩ :=
    h.accounted.call_cases (h.budget ▸ hbudget) call
  obtain rfl : cache = next.cache := Option.some.inj (hcache.symm.trans hcall)
  rcases hcases with ⟨hnone, hsame⟩ | ⟨dropped, kept, last, hused, hothers, hentries, hneeded⟩
  · rw [hnone] at huses
    constructor
    · refine ⟨haccounted, hkeeps.trans h.budget, ?_⟩
      rw [hsame]
      have hage : next.age = state.age := by
        funext key
        rw [age, age, huses]
        rfl
      rw [hage]
      exact h.ordered
    · intro entry hentry hgone
      rw [hsame] at hgone
      exact absurd (List.mem_map_of_mem hentry) hgone
  · rw [hused] at huses
    have hothersOrdered : (state.cache.others last.key).Pairwise fun entry later =>
        state.age later.key < state.age entry.key :=
      h.ordered.sublist (MemoryCache.others_sublist _ _)
    have hnext : next.cache.keys = kept.map (·.key) ++ [last.key] := by
      rw [MemoryCache.keys, hentries, List.map_append, List.map_singleton]
    constructor
    · refine ⟨haccounted, hkeeps.trans h.budget, ?_⟩
      rw [hentries]
      have hage : next.age = (last.key :: state.uses).idxOf := by
        funext key
        rw [age, huses]
        rfl
      rw [hage]
      apply ordered_use hothersOrdered (hothers ▸ List.sublist_append_right dropped kept)
      · intro entry hentry
        have hmem : entry ∈ state.cache.others last.key := hothers ▸ List.mem_append_right _ hentry
        exact MemoryCache.key_ne_of_mem_others hmem
      · rfl
    · intro entry hentry hgone
      rw [hnext, List.mem_append, List.mem_singleton, not_or] at hgone
      have hmem : entry ∈ dropped ++ kept := by
        rw [← hothers]
        exact List.mem_filter.mpr ⟨hentry, by simpa using hgone.2⟩
      have hdropped : entry ∈ dropped := (List.mem_append.mp hmem).resolve_right
        fun hkept => hgone.1 (List.mem_map_of_mem hkept)
      obtain ⟨older, newer, hsplit⟩ := List.append_of_mem hdropped
      obtain ⟨bytes, data, rfl, hsize⟩ := hneeded (List.ne_nil_of_mem hdropped)
      have hwhole : state.cache.others last.key = older ++ entry :: (newer ++ kept) := by
        rw [hothers, hsplit, List.append_assoc]
        rfl
      obtain ⟨hold, hrecent⟩ := filter_age hwhole hothersOrdered
      refine ⟨last.key, bytes, data, rfl, ?_, ?_⟩
      · have hfilter : (state.cache.entries.filter fun other => other.key ≠ last.key ∧
            state.age other.key ≤ state.age entry.key) = entry :: (newer ++ kept) := by
          rw [← hrecent, MemoryCache.others, List.filter_filter]
          apply List.filter_congr
          intro other _
          simp [Bool.and_comm]
        rw [hfilter]
        exact hsize older entry newer hsplit
      · intro other hother hage
        by_cases hkey : other.key = last.key
        · exact Or.inl hkey
        · refine Or.inr ?_
          rw [hnext, List.mem_append, List.mem_singleton, not_or]
          refine ⟨?_, hkey⟩
          intro hkept
          obtain ⟨same, hsame, hkeys⟩ := List.mem_map.mp hkept
          have hlate : same ∈ entry :: (newer ++ kept) :=
            List.mem_cons_of_mem _ (List.mem_append_right _ hsame)
          rw [← hrecent] at hlate
          have hyoung : state.age same.key ≤ state.age entry.key := by
            simpa using (List.mem_filter.mp hlate).2
          rw [hkeys] at hyoung
          exact absurd hage (Nat.not_lt.mpr hyoung)

/-- Whatever calls came before: the books are right, the next call goes through without a total
leaving its bounds, and it evicts the least recently used entries, no more than needed. -/
theorem memory_accounts {budget : Nat} (hbudget : budget < 2 ^ 63) {state : TrackedCache V}
    (h : Reachable step (start budget) state) :
    state.cache.Accounted ∧ ∀ call, (∃ next, state.step call next) ∧
      ∀ next, state.step call next → state.EvictsOldest call next := by
  have horderly : state.Orderly budget := h.invariant (orderly_start budget)
    fun _ _ _ horderly hstep => (horderly.step hbudget hstep).1
  refine ⟨horderly.accounted, fun call => ⟨horderly.progress hbudget call, ?_⟩⟩
  intro next hstep
  exact (horderly.step hbudget hstep).2

/-- Two entries that fill the budget, the older one used again since. -/
def fullCache : TrackedCache Nat :=
  ⟨⟨10, 10, [⟨"b", 4, 2⟩, ⟨"a", 6, 1⟩]⟩, ["a", "b", "a"]⟩

theorem memory_accounts_full :
    Reachable step (start 10) fullCache ∧ fullCache.cache.Accounted ∧
      ∀ call, (∃ next, fullCache.step call next) ∧
        ∀ next, fullCache.step call next → fullCache.EvictsOldest call next := by
  have h : Reachable step (start 10) fullCache := by
    refine ⟨[.insert "a" 6 1, .insert "b" 4 2, .get "a"], ?_⟩
    apply @Run.cons _ _ _ _ ⟨⟨10, 6, [⟨"a", 6, 1⟩]⟩, ["a"]⟩ _ _ _ ⟨by decide, rfl⟩
    apply @Run.cons _ _ _ _ ⟨⟨10, 10, [⟨"a", 6, 1⟩, ⟨"b", 4, 2⟩]⟩, ["b", "a"]⟩ _ _ _
      ⟨by decide, rfl⟩
    apply @Run.cons _ _ _ _ fullCache _ _ _ ⟨by decide, rfl⟩
    exact Run.nil _
  exact ⟨h, memory_accounts (by decide) h⟩

end TrackedCache

/-! ## Which value is served -/

/-- What is remembered about the inserts for each key after one more call. -/
def MemoryCall.recall (last : String → Option V) : MemoryCall V → String → Option V
  | .get _ => last
  | .insert key _ data => Function.update last key (some data)

/-- The data of the last insert for a key. -/
def lastInsert (calls : List (MemoryCall V)) (key : String) : Option V :=
  calls.foldl (fun last call => call.recall last) (fun _ => none) key

namespace MemoryCache

/-- An insert replaces what is kept for its key: it fits the budget, or nothing is kept. -/
def Replaces (cache : MemoryCache V) : MemoryCall V → Prop
  | .get _ => True
  | .insert key bytes _ => bytes ≤ cache.budget ∨ key ∉ cache.keys

/-- Every kept entry is the last one inserted for its key. -/
structure Current (last : String → Option V) (cache : MemoryCache V) : Prop where
  keys : cache.keys.Nodup
  latest : ∀ entry ∈ cache.entries, last entry.key = some entry.data

theorem evict_suffix {budget bytes used used' : Nat} {entries kept : List (MemoryEntry V)}
    (h : evict budget bytes used entries = some (used', kept)) : kept <:+ entries := by
  induction entries generalizing used with
  | nil =>
      obtain ⟨_, -, heq⟩ := Option.map_eq_some_iff.mp h
      cases heq
      exact List.suffix_rfl
  | cons first rest ih =>
      obtain ⟨total, -, h⟩ := Option.bind_eq_some_iff.mp h
      split_ifs at h with hroom
      · cases h
        exact List.suffix_rfl
      · obtain ⟨used, -, h⟩ := Option.bind_eq_some_iff.mp h
        exact (ih h).trans (List.suffix_cons first rest)

/-- An insert that fits puts its entry behind some of the others. -/
theorem insert_entries {cache next : MemoryCache V} (hkeys : cache.keys.Nodup) {key : String}
    {bytes : Nat} (hfits : bytes ≤ cache.budget) {data : V}
    (h : cache.insert key bytes data = some next) :
    ∃ kept, List.Sublist kept (cache.others key) ∧ next.entries = kept ++ [⟨key, bytes, data⟩] := by
  rw [MemoryCache.insert, if_neg (Nat.not_lt.mpr hfits)] at h
  obtain ⟨used, -, h⟩ := Option.bind_eq_some_iff.mp h
  obtain ⟨⟨used', kept⟩, hevict, h⟩ := Option.bind_eq_some_iff.mp h
  obtain ⟨_, -, rfl⟩ := Option.map_eq_some_iff.mp h
  rw [eraseP_eq_others hkeys] at hevict
  exact ⟨kept, (evict_suffix hevict).sublist, rfl⟩

/-- A call that replaces what is kept leaves the last entries inserted. -/
theorem Current.call {last : String → Option V} {cache next : MemoryCache V}
    (h : cache.Current last) {call : MemoryCall V} (hreplaces : cache.Replaces call)
    (hcall : cache.call call = some next) : next.Current (call.recall last) := by
  cases call with
  | get key =>
      rw [MemoryCache.call, Option.some.injEq] at hcall
      rcases get_cases h.keys key with ⟨-, hget⟩ | ⟨front, entry, back, hsplit, rfl, hget⟩
      · rw [hget] at hcall
        exact hcall ▸ h
      · rw [hget] at hcall
        have hperm : next.entries.Perm cache.entries := by
          rw [← hcall, hsplit]
          exact List.perm_append_singleton _ _ |>.trans List.perm_middle.symm
        refine ⟨(hperm.map _).nodup_iff.mpr h.keys, fun other hother => ?_⟩
        exact h.latest other (hperm.mem_iff.mp hother)
  | insert key bytes data =>
      have hother : ∀ entry ∈ cache.others key,
          Function.update last key (some data) entry.key = some entry.data := by
        intro entry hentry
        rw [Function.update_of_ne (key_ne_of_mem_others hentry)]
        exact h.latest entry ((others_sublist cache key).subset hentry)
      by_cases hfits : bytes ≤ cache.budget
      · obtain ⟨kept, hkept, hentries⟩ := insert_entries h.keys hfits hcall
        refine ⟨?_, fun entry hentry => ?_⟩
        · rw [MemoryCache.keys, hentries]
          apply nodup_append_last h.keys (hkept.trans (others_sublist cache key))
          exact fun entry hentry => key_ne_of_mem_others (hkept.subset hentry)
        · rw [hentries] at hentry
          rcases List.mem_append.mp hentry with hentry | hentry
          · exact hother entry (hkept.subset hentry)
          · rw [List.mem_singleton.mp hentry]
            exact Function.update_self _ _ _
      · have hsame : next = cache := by
          rw [MemoryCache.call, MemoryCache.insert, if_pos (Nat.lt_of_not_le hfits)] at hcall
          exact (Option.some.inj hcall).symm
        rw [hsame]
        refine ⟨h.keys, fun entry hentry => hother entry ?_⟩
        rw [others_eq_self (hreplaces.resolve_left hfits)]
        exact hentry

/-- A run of such calls leaves the last entries inserted. -/
theorem Current.run {calls : List (MemoryCall V)} {cache next : MemoryCache V}
    (run : Run (fun cache call next => cache.Replaces call ∧ cache.call call = some next)
      cache calls next) {last : String → Option V} (h : cache.Current last) :
    next.Current (calls.foldl (fun last call => call.recall last) last) := by
  induction run generalizing last with
  | nil => exact h
  | cons first _ ih => exact ih (h.call first.1 first.2)

/-- From an empty tier such calls keep the last entries inserted. -/
theorem current_of_run {budget : Nat} {calls : List (MemoryCall V)} {cache : MemoryCache V}
    (run : Run (fun cache call next => cache.Replaces call ∧ cache.call call = some next)
      (new budget) calls cache) : cache.Current (lastInsert calls) :=
  Current.run run ⟨List.nodup_nil, fun _ hentry => absurd hentry List.not_mem_nil⟩

/-- Where every insert replaces what is kept for its key, the tier serves the last insert. -/
theorem serves_last_insert {budget : Nat} {calls : List (MemoryCall V)} {cache : MemoryCache V}
    (run : Run (fun cache call next => cache.Replaces call ∧ cache.call call = some next)
      (new budget) calls cache) {key : String} {data : V}
    (hget : (cache.get key).1 = some data) : lastInsert calls key = some data := by
  have hcurrent := current_of_run run
  rcases get_cases hcurrent.keys key with ⟨-, hmiss⟩ | ⟨front, entry, back, hsplit, rfl, hhit⟩
  · rw [hmiss] at hget
    cases hget
  · rw [hhit] at hget
    have hentry : entry ∈ cache.entries := hsplit ▸ List.mem_append_right _ List.mem_cons_self
    exact (hcurrent.latest entry hentry).trans hget

/-- The first insert that does not replace what is kept for its key leaves the data of the insert
before it to be served. -/
theorem serves_insert_before {budget : Nat} {calls : List (MemoryCall V)}
    {cache next : MemoryCache V}
    (run : Run (fun cache call next => cache.Replaces call ∧ cache.call call = some next)
      (new budget) calls cache) {key : String} {bytes : Nat} {data : V}
    (hreplaces : ¬ cache.Replaces (.insert key bytes data))
    (hcall : cache.call (.insert key bytes data) = some next) :
    ∃ old, lastInsert calls key = some old ∧ (next.get key).1 = some old ∧
      lastInsert (calls ++ [.insert key bytes data]) key = some data := by
  obtain ⟨hlarge, hkept⟩ := not_or.mp hreplaces
  have hsame : next = cache := by
    rw [MemoryCache.call, MemoryCache.insert, if_pos (Nat.lt_of_not_le hlarge)] at hcall
    exact (Option.some.inj hcall).symm
  have hcurrent := current_of_run run
  rcases get_cases hcurrent.keys key with ⟨hnone, -⟩ | ⟨front, entry, back, hsplit, rfl, hhit⟩
  · exact absurd hnone hkept
  · have hentry : entry ∈ cache.entries := hsplit ▸ List.mem_append_right _ List.mem_cons_self
    refine ⟨entry.data, hcurrent.latest entry hentry, by rw [hsame, hhit], ?_⟩
    rw [lastInsert, List.foldl_append, List.foldl_cons, List.foldl_nil]
    exact Function.update_self _ _ _

/-- A regenerated entry that no longer fits. -/
def outgrown : List (MemoryCall Nat) :=
  [.insert "k" 5 1, .insert "k" 11 2]

/-- The value it should have replaced is still served. -/
theorem outgrown_serves_superseded :
    ∃ cache : MemoryCache Nat, Run (fun cache call next => cache.call call = some next) (new 10)
      outgrown cache ∧ (cache.get "k").1 = some 1 ∧ lastInsert outgrown "k" = some 2 := by
  refine ⟨⟨10, 5, [⟨"k", 5, 1⟩]⟩, ?_, by decide, by decide⟩
  apply @Run.cons _ _ _ _ ⟨10, 5, [⟨"k", 5, 1⟩]⟩ _ _ _ (by decide)
  apply @Run.cons _ _ _ _ ⟨10, 5, [⟨"k", 5, 1⟩]⟩ _ _ _ (by decide)
  exact Run.nil _

/-- A regenerated entry that still fits takes its place. -/
theorem serves_last_insert_regrown :
    Run (fun cache call next => cache.Replaces call ∧ cache.call call = some next) (new 10)
      [.insert "k" 5 1, .insert "k" 9 2] (⟨10, 9, [⟨"k", 9, 2⟩]⟩ : MemoryCache Nat) ∧
      lastInsert [.insert "k" 5 1, .insert "k" 9 (2 : Nat)] "k" = some 2 := by
  have run : Run (fun cache call next => cache.Replaces call ∧ cache.call call = some next) (new 10)
      [.insert "k" 5 1, .insert "k" 9 2] (⟨10, 9, [⟨"k", 9, 2⟩]⟩ : MemoryCache Nat) := by
    apply @Run.cons _ _ _ _ ⟨10, 5, [⟨"k", 5, 1⟩]⟩ _ _ _ ⟨Or.inl (by decide), by decide⟩
    apply @Run.cons _ _ _ _ ⟨10, 9, [⟨"k", 9, 2⟩]⟩ _ _ _ ⟨Or.inl (by decide), by decide⟩
    exact Run.nil _
  exact ⟨run, serves_last_insert run (by decide)⟩

end MemoryCache

end BazelDiff
