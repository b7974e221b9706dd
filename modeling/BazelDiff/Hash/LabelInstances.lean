/-
# A label from its instances

What aggregation is for, said once for both of its paths: a label has its one instance's
digests or the hash of all of them in key order, and the first occurrences of its
instances' dependency labels as edges. Nothing else about the list of digests matters,
neither its order nor which path it took.
-/

import BazelDiff.Hash.Aggregate

namespace BazelDiff

open Text HashFunction

variable {D : Type} [HashFunction D]

/-! ## First occurrences -/

theorem eraseDups_of_nodup {items : List String} (h : items.Nodup) : items.eraseDups = items := by
  induction items with
  | nil => rfl
  | cons item items ih =>
      obtain ⟨hitem, hrest⟩ := List.nodup_cons.mp h
      have hfilter : items.filter (fun other => !other == item) = items := by
        rw [List.filter_eq_self]
        rintro other hother
        have hne : other ≠ item := fun heq => hitem (heq ▸ hother)
        simpa using hne
      rw [List.eraseDups_cons, hfilter, ih hrest]

/-- `retain` with a set of seen items keeps first occurrences. -/
theorem foldl_retainFirst (items kept : List String) :
    items.foldl (fun kept item => if item ∈ kept then kept else kept ++ [item]) kept =
      kept ++ (items.filter (· ∉ kept)).eraseDups := by
  induction items generalizing kept with
  | nil => simp
  | cons item items ih =>
      rw [List.foldl_cons, ih]
      by_cases hitem : item ∈ kept
      · simp [hitem]
      · rw [if_neg hitem, List.filter_cons_of_pos (by simpa using hitem), List.eraseDups_cons,
          List.filter_filter, List.append_assoc, List.singleton_append]
        congr 3
        apply List.filter_congr
        intro other _
        by_cases hother : other ∈ kept
        · simp [hother]
        · by_cases heq : other = item
          · simp [heq]
          · simp [hother, heq]

theorem retainFirst_eq_eraseDups (items : List String) : retainFirst items = items.eraseDups := by
  rw [retainFirst, foldl_retainFirst]
  simp

omit [HashFunction D] in
/-- Dependency labels in increasing order have nothing to drop. -/
theorem labelDeps_eq_eraseDups (instances : List (KeyedDigest D)) :
    labelDeps instances =
      (((instances.filterMap (·.digest.deps)).flatten).map targetLabel).eraseDups := by
  rw [labelDeps]
  split_ifs with hsorted
  · have htrans : ∀ a b c : String, decide (a < b) = true → decide (b < c) = true →
        decide (a < c) = true :=
      fun a b c hab hbc => decide_eq_true ((of_decide_eq_true hab).trans (of_decide_eq_true hbc))
    have hpairwise := (isSortedBy_iff_pairwise htrans _).mp hsorted
    rw [eraseDups_of_nodup]
    exact hpairwise.imp fun hlt => ne_of_lt (of_decide_eq_true hlt)
  · exact retainFirst_eq_eraseDups _

/-! ## Instances in key order -/

/-- The instances of a label, sorted by their keys. -/
def inKeyOrder (digests : List (KeyedDigest D)) (label : String) : List (KeyedDigest D) :=
  (digests.filter (·.label = label)).insertionSort fun a b => a.key ≤ b.key

instance : Std.Total fun a b : KeyedDigest D => a.key ≤ b.key where
  total a b := le_total a.key b.key

instance : IsTrans (KeyedDigest D) fun a b => a.key ≤ b.key where
  trans _ _ _ hab hbc := hab.trans hbc

section Keys

variable {digests : List (KeyedDigest D)} (hkeys : (digests.map (·.key)).Nodup)

include hkeys

omit [HashFunction D] in
theorem eq_of_key_le {a b : KeyedDigest D} (ha : a ∈ digests) (hb : b ∈ digests)
    (hab : a.key ≤ b.key) (hba : b.key ≤ a.key) : a = b :=
  List.inj_on_of_nodup_map hkeys ha hb (le_antisymm hab hba)

omit [HashFunction D] in
/-- Sorting by label and key and sorting one label's instances by key agree. -/
theorem instancesOf_eq_inKeyOrder (label : String) :
    instancesOf digests label = inKeyOrder digests label := by
  have hperm : (instancesOf digests label).Perm (inKeyOrder digests label) :=
    ((List.perm_insertionSort KeyedDigest.before digests).filter _).trans
      (List.perm_insertionSort _ _).symm
  have hsorted : (instancesOf digests label).Pairwise fun a b => a.key ≤ b.key := by
    have hbefore : (instancesOf digests label).Pairwise KeyedDigest.before :=
      (List.pairwise_insertionSort KeyedDigest.before digests).filter _
    apply hbefore.imp_of_mem
    intro a b ha hb hab
    have hlabel : ∀ keyed ∈ instancesOf digests label, keyed.label = label :=
      fun keyed hkeyed => of_decide_eq_true (List.mem_filter.mp hkeyed).2
    rcases hab with hlt | ⟨-, hle⟩
    · rw [hlabel a ha, hlabel b hb] at hlt
      exact absurd hlt (lt_irrefl label)
    · exact hle
  have hmem : ∀ keyed ∈ instancesOf digests label, keyed ∈ digests := by
    intro keyed hkeyed
    exact (List.mem_insertionSort _).mp (List.mem_filter.mp hkeyed).1
  refine hperm.eq_of_pairwise ?_ hsorted (List.pairwise_insertionSort _ _)
  intro a b ha hb hab hba
  exact eq_of_key_le hkeys (hmem a ha) (hmem b (hperm.mem_iff.mpr hb)) hab hba

omit [HashFunction D] in
theorem inKeyOrder_perm {digests' : List (KeyedDigest D)} (hperm : digests.Perm digests')
    (label : String) : inKeyOrder digests label = inKeyOrder digests' label := by
  apply Sorting.insertionSort_eq_of_perm (hperm.filter _)
  intro a ha b hb hab hba
  exact eq_of_key_le hkeys (List.mem_filter.mp ha).1 (List.mem_filter.mp hb).1 hab hba

end Keys

/-! ## Aggregation -/

/-- The edges a group of instances puts into the map, when edges are tracked. -/
def edgesOfInstances (trackDeps : Bool) (instances : List (KeyedDigest D)) :
    Option (List String) :=
  if trackDeps ∧ instances ≠ [] then
    some (((instances.filterMap (·.digest.deps)).flatten).map targetLabel).eraseDups
  else none

theorem depEdges_reading (trackDeps : Bool) :
    Reading (D := D) trackDeps (fun maps name => maps.depEdges[name]?)
      (edgesOfInstances trackDeps) where
  nothing := by simp [edgesOfInstances]
  empty name := by simp
  insert maps instances label hne hlabel hnone name := by
    cases instances with
    | nil => exact absurd rfl hne
    | cons first rest =>
        have hfirst : first.label = label := hlabel first List.mem_cons_self
        cases trackDeps with
        | false =>
            simp only [LabelMaps.insertLabel, edgesOfInstances]
            by_cases hname : label = name
            · subst hname
              simp [hnone]
            · simp [hname]
        | true =>
            simp only [LabelMaps.insertLabel, hfirst, edgesOfInstances, labelDeps_eq_eraseDups,
              if_true, Std.ExtTreeMap.getElem?_insert]
            by_cases hname : label = name
            · simp [hname]
            · simp [hname]

omit [HashFunction D] in
theorem LabelMaps.ext_lookup {a b : LabelMaps D}
    (hhashes : ∀ name : String, a.hashes[name]? = b.hashes[name]?)
    (hedges : ∀ name : String, a.depEdges[name]? = b.depEdges[name]?) : a = b := by
  rcases a with ⟨hashes, depEdges⟩
  rcases b with ⟨hashes', depEdges'⟩
  obtain rfl : hashes = hashes' := Std.ExtTreeMap.ext_getElem? hhashes
  obtain rfl : depEdges = depEdges' := Std.ExtTreeMap.ext_getElem? hedges
  rfl

/-- For digests of distinct keys: a label has the digests of its one instance, or the hash of
all its instances' in key order; its edges are the first occurrences of its instances'
dependency labels in key order; the path for increasing labels and the path through groups
give the same maps; and the order of the digests does not matter. -/
theorem aggregateByLabel_fold {digests : List (KeyedDigest D)}
    (hkeys : (digests.map (·.key)).Nodup) (trackDeps : Bool) :
    (∀ name : String, (aggregateByLabel digests trackDeps).hashes[name]? =
      match inKeyOrder digests name with
      | [] => none
      | [keyed] =>
          some ⟨keyed.kind, .sha256 keyed.digest.overall, .sha256 keyed.digest.direct⟩
      | first :: second :: rest => some {
          kind := first.kind
          hash := .sha256 (digest ((first :: second :: rest).flatMap fun keyed =>
            bytes keyed.digest.overall))
          directHash := .sha256 (digest ((first :: second :: rest).flatMap fun keyed =>
            bytes keyed.digest.direct)) }) ∧
    (∀ name : String, (aggregateByLabel digests trackDeps).depEdges[name]? =
      if trackDeps ∧ inKeyOrder digests name ≠ [] then
        some (((inKeyOrder digests name).filterMap (·.digest.deps)).flatten.map
          targetLabel).eraseDups
      else none) ∧
    aggregateByLabel digests trackDeps = groupByLabel digests trackDeps ∧
    ∀ digests', digests.Perm digests' →
      aggregateByLabel digests' trackDeps = aggregateByLabel digests trackDeps := by
  have hhashes := hashes_reading (D := D) trackDeps
  have hedges := depEdges_reading (D := D) trackDeps
  refine ⟨?_, ?_, ?_, ?_⟩
  · intro name
    rw [hashes_aggregateByLabel, instancesOf_eq_inKeyOrder hkeys]
    rcases inKeyOrder digests name with _ | ⟨first, _ | ⟨second, rest⟩⟩
    · rfl
    · rfl
    · rfl
  · intro name
    have hread := read_aggregateByLabel hedges digests name
    rw [instancesOf_eq_inKeyOrder hkeys] at hread
    exact hread
  · apply LabelMaps.ext_lookup
    · intro name
      rw [read_aggregateByLabel hhashes, read_groupByLabel hhashes]
    · intro name
      rw [read_aggregateByLabel hedges, read_groupByLabel hedges]
  · intro digests' hperm
    have hkeys' : (digests'.map (·.key)).Nodup := (hperm.map _).nodup_iff.mp hkeys
    have hsame : ∀ name, instancesOf digests' name = instancesOf digests name := by
      intro name
      rw [instancesOf_eq_inKeyOrder hkeys, instancesOf_eq_inKeyOrder hkeys',
        inKeyOrder_perm hkeys hperm]
    apply LabelMaps.ext_lookup
    · intro name
      rw [read_aggregateByLabel hhashes, read_aggregateByLabel hhashes, hsame]
    · intro name
      rw [read_aggregateByLabel hedges, read_aggregateByLabel hedges, hsame]

/-- Two instances of one label around a longer label, with a character below the separator. -/
def mixedDigests : List (KeyedDigest Preimage) :=
  [⟨"//a:b|2", "Rule", ⟨⟨[2]⟩, ⟨[20]⟩, some ["//c:c|1", "//a:a"]⟩⟩,
    ⟨"//a:b-c", "Rule", ⟨⟨[3]⟩, ⟨[30]⟩, none⟩⟩,
    ⟨"//a:b|1", "Rule", ⟨⟨[1]⟩, ⟨[10]⟩, some ["//c:c|2"]⟩⟩]

theorem mixedDigests_aggregated :
    (mixedDigests.map (·.key)).Nodup ∧
      (aggregateByLabel mixedDigests true).depEdges["//a:b"]? = some ["//c:c", "//a:a"] ∧
      aggregateByLabel mixedDigests.reverse true = aggregateByLabel mixedDigests true := by
  have hkeys : (mixedDigests.map (·.key)).Nodup := by decide
  obtain ⟨-, hedges, -, hperm⟩ := aggregateByLabel_fold hkeys true
  refine ⟨hkeys, ?_, hperm _ (List.reverse_perm _).symm⟩
  rw [hedges]
  decide +kernel

end BazelDiff
