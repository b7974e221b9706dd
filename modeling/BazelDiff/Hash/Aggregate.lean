/-
# From keys to labels

The traversal digests keys; a hash file is keyed by labels. A label hashed once keeps
its digest, and a label with several configured instances hashes all of them in key
order.
-/

import BazelDiff.Hash.Traversal
import BazelDiff.HashFile
import BazelDiff.Lib.Sorting

namespace BazelDiff

open Text HashFunction

variable {D : Type} [HashFunction D]

/-- A key with its kind and its digest. -/
structure KeyedDigest (D : Type) where
  key : String
  kind : String
  digest : TargetDigest D

namespace KeyedDigest

def label (keyed : KeyedDigest D) : String :=
  targetLabel keyed.key

/-- The order instances are grouped in: by label, then by key. -/
def before (a b : KeyedDigest D) : Prop :=
  a.label < b.label ∨ (a.label = b.label ∧ a.key ≤ b.key)

instance : DecidableRel (before (D := D)) := fun a b => by unfold before; infer_instance

end KeyedDigest

/-- `is_sorted_by`: whether every two neighbours are related. -/
def isSortedBy {α : Type} (related : α → α → Bool) : List α → Bool
  | a :: b :: rest => related a b && isSortedBy related (b :: rest)
  | _ => true

/-- Keep the first occurrence of every element. -/
def retainFirst (items : List String) : List String :=
  items.foldl (fun kept item => if item ∈ kept then kept else kept ++ [item]) []

/-- The dependency edges of a label: the union of its instances', as labels. -/
def labelDeps (instances : List (KeyedDigest D)) : List String :=
  let deps := ((instances.filterMap (·.digest.deps)).flatten).map targetLabel
  if isSortedBy (fun left right => left < right) deps then deps else retainFirst deps

/-- The overall and the direct digest of a label from its instances. -/
def labelDigests (instances : List (KeyedDigest D)) : D × D :=
  match instances with
  | [keyed] => (keyed.digest.overall, keyed.digest.direct)
  | _ =>
      (digest (instances.flatMap fun keyed => bytes keyed.digest.overall),
        digest (instances.flatMap fun keyed => bytes keyed.digest.direct))

/-- One label of the hash file, from its instances in key order. -/
def labelHash (first : KeyedDigest D) (rest : List (KeyedDigest D)) : TargetHash D :=
  let (overall, direct) := labelDigests (first :: rest)
  ⟨first.kind, .sha256 overall, .sha256 direct⟩

/-- The maps under construction. -/
structure LabelMaps (D : Type) where
  hashes : StringMap (TargetHash D) := ∅
  depEdges : StringMap (List String) := ∅

/-- Add the label of a group of instances to the maps. -/
def LabelMaps.insertLabel (trackDeps : Bool) (maps : LabelMaps D)
    (instances : List (KeyedDigest D)) : LabelMaps D :=
  match instances with
  | [] => maps
  | first :: rest =>
      { hashes := maps.hashes.insert first.label (labelHash first rest)
        depEdges :=
          if trackDeps then maps.depEdges.insert first.label (labelDeps (first :: rest))
          else maps.depEdges }

/-- Close the current group when the next key has another label. -/
def groupStep (trackDeps : Bool) (state : LabelMaps D × List (KeyedDigest D))
    (keyed : KeyedDigest D) : LabelMaps D × List (KeyedDigest D) :=
  if state.2.getLast?.any fun last => last.label ≠ keyed.label then
    (state.1.insertLabel trackDeps state.2, [keyed])
  else (state.1, state.2 ++ [keyed])

/-- Folds per-key digests into the per-label hashes and dependency edges. -/
def aggregateByLabel (digests : List (KeyedDigest D)) (trackDeps : Bool) : LabelMaps D :=
  if isSortedBy (fun a b => a.label < b.label) digests then
    digests.foldl (fun maps keyed => maps.insertLabel trackDeps [keyed]) {}
  else
    let (maps, instances) :=
      (digests.insertionSort KeyedDigest.before).foldl (groupStep trackDeps) ({}, [])
    maps.insertLabel trackDeps instances

/-! ## What a label's hash is -/

theorem isSortedBy_iff_pairwise {α : Type} {related : α → α → Bool}
    (htrans : ∀ a b c, related a b = true → related b c = true → related a c = true)
    (items : List α) :
    isSortedBy related items = true ↔ items.Pairwise fun a b => related a b = true := by
  induction items with
  | nil => simp [isSortedBy]
  | cons a rest ih =>
      cases rest with
      | nil => simp [isSortedBy]
      | cons b rest =>
          rw [isSortedBy, Bool.and_eq_true, ih, List.pairwise_cons (l := b :: rest)]
          constructor
          · rintro ⟨hab, hrest⟩
            refine ⟨fun c hc => ?_, hrest⟩
            rcases List.mem_cons.mp hc with rfl | hc
            · exact hab
            · exact htrans a b c hab ((List.pairwise_cons.mp hrest).1 c hc)
          · rintro ⟨hall, hrest⟩
            exact ⟨hall b List.mem_cons_self, hrest⟩

namespace KeyedDigest

instance : Std.Total (before (D := D)) where
  total a b := by
    rcases lt_trichotomy a.label b.label with h | h | h
    · exact Or.inl (Or.inl h)
    · exact (le_total a.key b.key).imp (fun hk => Or.inr ⟨h, hk⟩) fun hk => Or.inr ⟨h.symm, hk⟩
    · exact Or.inr (Or.inl h)

instance : IsTrans (KeyedDigest D) before where
  trans a b c hab hbc := by
    rcases hab with hab | ⟨hab, hkab⟩ <;> rcases hbc with hbc | ⟨hbc, hkbc⟩
    · exact Or.inl (hab.trans hbc)
    · exact Or.inl (hbc ▸ hab)
    · exact Or.inl (hab ▸ hbc)
    · exact Or.inr ⟨hab.trans hbc, hkab.trans hkbc⟩

omit [HashFunction D] in
theorem before.label_le {a b : KeyedDigest D} (h : before a b) : a.label ≤ b.label :=
  h.elim le_of_lt fun h => le_of_eq h.1

end KeyedDigest

/-- The hash of a label from its instances in key order, when it has any. -/
def hashOfInstances : List (KeyedDigest D) → Option (TargetHash D)
  | [] => none
  | first :: rest => some (labelHash first rest)

/-- The instances of a label, in key order. -/
def instancesOf (digests : List (KeyedDigest D)) (label : String) : List (KeyedDigest D) :=
  (digests.insertionSort KeyedDigest.before).filter (·.label = label)

section Reading

variable {β : Type} {trackDeps : Bool} {view : LabelMaps D → String → Option β}
  {value : List (KeyedDigest D) → Option β}

/-- One of the maps, read by label, and what a group of instances puts there. -/
structure Reading (trackDeps : Bool) (view : LabelMaps D → String → Option β)
    (value : List (KeyedDigest D) → Option β) : Prop where
  nothing : value [] = none
  empty : ∀ name, view {} name = none
  insert : ∀ (maps : LabelMaps D) {instances : List (KeyedDigest D)} (label : String),
    instances ≠ [] → (∀ keyed ∈ instances, keyed.label = label) → view maps label = none →
    ∀ name, view (maps.insertLabel trackDeps instances) name =
      if label = name then value instances else view maps name

/-- The maps hold the finished groups of a sorted list, and the current group the rest. -/
def Grouped (view : LabelMaps D → String → Option β)
    (value : List (KeyedDigest D) → Option β) (done : List (KeyedDigest D))
    (state : LabelMaps D × List (KeyedDigest D)) : Prop :=
  (done = [] ∧ state.2 = [] ∧ state.1 = {}) ∨
  ∃ last, done.getLast? = some last ∧ state.2 = done.filter (·.label = last.label) ∧
    ∀ name, view state.1 name =
      if last.label = name then none else value (done.filter (·.label = name))

theorem groupStep_grouped (hread : Reading trackDeps view value) {done : List (KeyedDigest D)}
    {keyed : KeyedDigest D} (hsorted : ∀ earlier ∈ done, earlier.label ≤ keyed.label)
    (hdone : done.Pairwise fun a b => a.label ≤ b.label)
    {state : LabelMaps D × List (KeyedDigest D)} (h : Grouped view value done state) :
    Grouped view value (done ++ [keyed]) (groupStep trackDeps state keyed) := by
  have hnew : ∀ name, (done ++ [keyed]).filter (·.label = name) =
      if keyed.label = name then done.filter (·.label = name) ++ [keyed]
      else done.filter (·.label = name) := by
    intro name
    by_cases hname : keyed.label = name <;> simp [List.filter_append, hname]
  rcases h with ⟨rfl, hinstances, hmaps⟩ | ⟨last, hlast, hinstances, hmaps⟩
  · refine Or.inr ⟨keyed, List.getLast?_concat, ?_, fun name => ?_⟩
    · simp [groupStep, hinstances]
    · by_cases hname : keyed.label = name <;>
        simp [groupStep, hinstances, hmaps, hname, hread.empty, hread.nothing]
  · have hmem : last ∈ done := List.mem_of_getLast? hlast
    have hlabels : ∀ instance' ∈ state.2, instance'.label = last.label := by
      intro instance' hin
      rw [hinstances] at hin
      simpa using (List.mem_filter.mp hin).2
    have hne : state.2 ≠ [] := by
      rw [hinstances]
      exact List.ne_nil_of_mem (List.mem_filter.mpr ⟨hmem, by simp⟩)
    have hclose : (state.2.getLast?.any fun previous => previous.label ≠ keyed.label) =
        decide (last.label ≠ keyed.label) := by
      rw [List.getLast?_eq_some_getLast hne, Option.any_some, hlabels _ (List.getLast_mem hne)]
    refine Or.inr ⟨keyed, List.getLast?_concat, ?_, fun name => ?_⟩
    · rw [groupStep, hclose, hnew, if_pos rfl]
      by_cases hlabel : last.label = keyed.label
      · simp [hlabel, hinstances]
      · have hempty : done.filter (·.label = keyed.label) = [] := by
          rw [List.filter_eq_nil_iff]
          intro earlier hearlier heq
          refine hlabel (le_antisymm (hsorted last hmem) ?_)
          exact of_decide_eq_true heq ▸ label_le_getLast hdone hlast earlier hearlier
        simp [hlabel, hempty]
    · rw [groupStep, hclose, hnew]
      by_cases hlabel : last.label = keyed.label
      · simp only [hlabel, ne_eq, not_true, decide_false, Bool.false_eq_true, if_false, hmaps]
        by_cases hname : keyed.label = name <;> simp [hname]
      · simp only [ne_eq, hlabel, not_false_eq_true, decide_true, if_true]
        have hopen : view state.1 last.label = none := by rw [hmaps, if_pos rfl]
        rw [hread.insert _ _ hne hlabels hopen, hmaps, hinstances]
        by_cases hname : keyed.label = name
        · have hempty : done.filter (·.label = name) = [] := by
            rw [List.filter_eq_nil_iff]
            intro earlier hearlier heq
            refine hlabel (le_antisymm (hsorted last hmem) ?_)
            rw [hname, ← of_decide_eq_true heq]
            exact label_le_getLast hdone hlast earlier hearlier
          rw [if_pos hname, if_neg (fun h => hlabel (h.trans hname.symm)),
            if_neg (fun h => hlabel (h.trans hname.symm)), hempty, hread.nothing]
        · rw [if_neg hname, if_neg hname]
          by_cases hlast' : last.label = name
          · rw [if_pos hlast', hlast']
          · rw [if_neg hlast', if_neg hlast']
where
  /-- No label of a sorted list comes after the last. -/
  label_le_getLast {done : List (KeyedDigest D)}
      (hdone : done.Pairwise fun a b => a.label ≤ b.label) {last : KeyedDigest D}
      (hlast : done.getLast? = some last) :
      ∀ earlier ∈ done, earlier.label ≤ last.label := by
    obtain ⟨front, rfl⟩ := List.getLast?_eq_some_iff.mp hlast
    intro earlier hearlier
    rcases List.mem_append.mp hearlier with hin | hin
    · exact (List.pairwise_append.mp hdone).2.2 earlier hin last (by simp)
    · rw [List.mem_singleton.mp hin]

/-- Grouping a list sorted by label gives every label the value of its instances. -/
theorem grouped_foldl (hread : Reading trackDeps view value) {sorted : List (KeyedDigest D)}
    (hsorted : sorted.Pairwise fun a b => a.label ≤ b.label) :
    Grouped view value sorted (sorted.foldl (groupStep trackDeps) ({}, [])) := by
  suffices h : ∀ done rest, sorted = done ++ rest → ∀ state, Grouped view value done state →
      Grouped view value sorted (rest.foldl (groupStep trackDeps) state) from
    h [] sorted rfl _ (Or.inl ⟨rfl, rfl, rfl⟩)
  intro done rest
  induction rest generalizing done with
  | nil =>
      intro heq state h
      rw [heq, List.append_nil]
      exact h
  | cons keyed rest ih =>
      intro heq state h
      rw [heq, List.pairwise_append] at hsorted
      refine ih (done ++ [keyed]) (by simpa using heq) _ (groupStep_grouped hread ?_ hsorted.1 h)
      exact fun earlier hearlier => hsorted.2.2 earlier hearlier keyed List.mem_cons_self

/-- Labels that are strictly increasing have one instance each. -/
theorem read_foldl_singletons (hread : Reading trackDeps view value)
    {digests : List (KeyedDigest D)} (hsorted : digests.Pairwise fun a b => a.label < b.label)
    {maps : LabelMaps D} (hopen : ∀ keyed ∈ digests, view maps keyed.label = none)
    (name : String) :
    view (digests.foldl (fun maps keyed => maps.insertLabel trackDeps [keyed]) maps) name =
      if digests.filter (·.label = name) = [] then view maps name
      else value (digests.filter (·.label = name)) := by
  induction digests generalizing maps with
  | nil => simp
  | cons keyed rest ih =>
      obtain ⟨hfirst, hrest⟩ := List.pairwise_cons.mp hsorted
      have hinsert := hread.insert maps keyed.label (List.cons_ne_nil keyed []) (by simp)
        (hopen keyed List.mem_cons_self)
      have hopen' : ∀ later ∈ rest,
          view (maps.insertLabel trackDeps [keyed]) later.label = none := by
        intro later hlater
        rw [hinsert, if_neg (ne_of_lt (hfirst later hlater))]
        exact hopen later (List.mem_cons_of_mem _ hlater)
      rw [List.foldl_cons, ih hrest hopen', hinsert, List.filter_cons]
      by_cases hname : keyed.label = name
      · have hempty : rest.filter (·.label = name) = [] := by
          rw [List.filter_eq_nil_iff]
          intro later hlater heq
          exact absurd (hname.trans (of_decide_eq_true heq).symm) (ne_of_lt (hfirst later hlater))
        simp [hname, hempty]
      · simp [hname]

/-- The path through the groups. -/
def groupByLabel (digests : List (KeyedDigest D)) (trackDeps : Bool) : LabelMaps D :=
  let (maps, instances) :=
    (digests.insertionSort KeyedDigest.before).foldl (groupStep trackDeps) ({}, [])
  maps.insertLabel trackDeps instances

theorem read_groupByLabel (hread : Reading trackDeps view value) (digests : List (KeyedDigest D))
    (name : String) :
    view (groupByLabel digests trackDeps) name = value (instancesOf digests name) := by
  have hsorted : (digests.insertionSort KeyedDigest.before).Pairwise
      fun a b => a.label ≤ b.label :=
    (List.pairwise_insertionSort KeyedDigest.before digests).imp fun h => h.label_le
  rw [groupByLabel, instancesOf]
  dsimp only
  rcases grouped_foldl hread hsorted with ⟨hnil, hinstances, hmaps⟩ |
    ⟨last, hlast, hinstances, hmaps⟩
  · rw [hnil] at hinstances hmaps ⊢
    rw [hinstances, hmaps]
    simp [LabelMaps.insertLabel, hread.empty, hread.nothing]
  · have hopen : view _ last.label = none := (hmaps last.label).trans (if_pos rfl)
    rw [hread.insert _ last.label ?_ ?_ hopen, hmaps, hinstances]
    · by_cases hname : last.label = name <;> simp [hname]
    · rw [hinstances]
      exact List.ne_nil_of_mem (List.mem_filter.mpr ⟨List.mem_of_getLast? hlast, by simp⟩)
    · intro keyed hkeyed
      rw [hinstances] at hkeyed
      simpa using (List.mem_filter.mp hkeyed).2

/-- A label has the value of its instances in key order, whichever way they were collected. -/
theorem read_aggregateByLabel (hread : Reading trackDeps view value)
    (digests : List (KeyedDigest D)) (name : String) :
    view (aggregateByLabel digests trackDeps) name = value (instancesOf digests name) := by
  have htrans : ∀ a b c : KeyedDigest D, decide (a.label < b.label) = true →
      decide (b.label < c.label) = true → decide (a.label < c.label) = true := by
    intro a b c hab hbc
    exact decide_eq_true ((of_decide_eq_true hab).trans (of_decide_eq_true hbc))
  rw [aggregateByLabel]
  split_ifs with hincreasing
  · have hpairwise := (isSortedBy_iff_pairwise htrans digests).mp hincreasing
    have hlt : digests.Pairwise fun a b => a.label < b.label :=
      hpairwise.imp fun h => of_decide_eq_true h
    have hsame : digests.insertionSort KeyedDigest.before = digests :=
      (hlt.imp fun h => Or.inl h).insertionSort_eq
    rw [read_foldl_singletons hread hlt fun keyed _ => hread.empty keyed.label, instancesOf, hsame]
    split_ifs with hnone
    · rw [hread.empty, hnone, hread.nothing]
    · rfl
  · exact read_groupByLabel hread digests name

end Reading

theorem hashes_reading (trackDeps : Bool) :
    Reading trackDeps (fun maps name => maps.hashes[name]?) (hashOfInstances (D := D)) where
  nothing := rfl
  empty name := by simp
  insert maps instances label hne hlabel _ name := by
    cases instances with
    | nil => exact absurd rfl hne
    | cons first rest =>
        have hfirst : first.label = label := hlabel first List.mem_cons_self
        simp only [LabelMaps.insertLabel, hfirst, hashOfInstances, Std.ExtTreeMap.getElem?_insert]
        by_cases hname : label = name <;> simp [hname]

/-- The hash of a label is the hash of its instances in key order, whichever way they were
collected. -/
theorem hashes_aggregateByLabel (digests : List (KeyedDigest D)) (trackDeps : Bool)
    (name : String) :
    (aggregateByLabel digests trackDeps).hashes[name]? =
      hashOfInstances (instancesOf digests name) :=
  read_aggregateByLabel (hashes_reading trackDeps) digests name

/-- Every entry is the label of a key. -/
theorem label_of_mem_hashes {digests : List (KeyedDigest D)} {trackDeps : Bool} {label : String}
    (h : label ∈ (aggregateByLabel digests trackDeps).hashes) :
    ∃ keyed ∈ digests, keyed.label = label := by
  obtain ⟨hash, hhash⟩ := Option.isSome_iff_exists.mp (Std.ExtTreeMap.mem_iff_isSome_getElem?.mp h)
  rw [hashes_aggregateByLabel] at hhash
  cases hfound : instancesOf digests label with
  | nil =>
      rw [hfound] at hhash
      cases hhash
  | cons first rest =>
      have hfirst : first ∈ instancesOf digests label := hfound ▸ List.mem_cons_self
      obtain ⟨hsorted, hname⟩ := List.mem_filter.mp hfirst
      exact ⟨first, (List.mem_insertionSort _).mp hsorted, of_decide_eq_true hname⟩

/-- When no two keys have the same label, a label keeps its key's kind and digests. -/
theorem hashes_of_nodup_labels {digests : List (KeyedDigest D)}
    (hnodup : (digests.map (·.label)).Nodup) (trackDeps : Bool) {keyed : KeyedDigest D}
    (h : keyed ∈ digests) :
    (aggregateByLabel digests trackDeps).hashes[keyed.label]? =
      some ⟨keyed.kind, .sha256 keyed.digest.overall, .sha256 keyed.digest.direct⟩ := by
  have hperm : (digests.insertionSort KeyedDigest.before).Perm digests :=
    List.perm_insertionSort _ _
  have hsorted : ((digests.insertionSort KeyedDigest.before).map (·.label)).Nodup :=
    (hperm.map _).nodup_iff.mpr hnodup
  have hfound : instancesOf digests keyed.label = [keyed] := by
    rw [instancesOf]
    apply List.perm_singleton.mp
    apply (List.perm_ext_iff_of_nodup (hsorted.of_map.filter _) (List.nodup_singleton _)).mpr
    intro other
    rw [List.mem_filter, hperm.mem_iff, List.mem_singleton, decide_eq_true_eq]
    constructor
    · rintro ⟨hother, hlabel⟩
      exact List.inj_on_of_nodup_map hnodup hother h hlabel
    · rintro rfl
      exact ⟨h, rfl⟩
  rw [hashes_aggregateByLabel, hfound]
  rfl

/-! ## Two runs over the same keys -/

omit [HashFunction D] in
/-- The instances of a label in two runs over the same keys are those of the pairs. -/
theorem instancesOf_pairs {pairs : List (KeyedDigest D × KeyedDigest D)}
    (hkey : ∀ pair ∈ pairs, pair.1.key = pair.2.key) (label : String) :
    ∃ found : List (KeyedDigest D × KeyedDigest D),
      instancesOf (pairs.map Prod.fst) label = found.map Prod.fst ∧
      instancesOf (pairs.map Prod.snd) label = found.map Prod.snd ∧
      ∀ pair, pair ∈ found ↔ pair ∈ pairs ∧ pair.1.label = label := by
  have hlabel : ∀ pair ∈ pairs, pair.1.label = pair.2.label := fun pair hpair => by
    rw [KeyedDigest.label, KeyedDigest.label, hkey pair hpair]
  let sorted := pairs.insertionSort fun a b => a.1.before b.1
  have hmem : ∀ pair, pair ∈ sorted ↔ pair ∈ pairs := fun pair => List.mem_insertionSort _
  refine ⟨sorted.filter (·.1.label = label), ?_, ?_, fun pair => ?_⟩
  · have hsort : sorted.map Prod.fst = (pairs.map Prod.fst).insertionSort KeyedDigest.before :=
      List.map_insertionSort _ _ _ _ fun _ _ _ _ => Iff.rfl
    rw [instancesOf, ← hsort, List.filter_map]
    rfl
  · have hsort : sorted.map Prod.snd = (pairs.map Prod.snd).insertionSort KeyedDigest.before := by
      apply List.map_insertionSort
      intro a ha b hb
      rw [KeyedDigest.before, KeyedDigest.before, hlabel a ha, hlabel b hb, hkey a ha, hkey b hb]
    rw [instancesOf, ← hsort, List.filter_map]
    congr 1
    apply List.filter_congr
    intro pair hpair
    simp only [Function.comp_apply, hlabel pair ((hmem pair).mp hpair)]
  · rw [List.mem_filter, hmem, decide_eq_true_eq]

/-- Concatenated digests are equal when the digests are. -/
theorem flatMap_bytes_eq_iff {α : Type} {f g : α → D} {items : List α} :
    (items.flatMap fun item => bytes (f item)) = (items.flatMap fun item => bytes (g item)) ↔
      ∀ item ∈ items, f item = g item := by
  induction items with
  | nil => simp
  | cons item rest ih =>
      rw [List.flatMap_cons, List.flatMap_cons, append_eq_append_iff, ih]
      simp

/-- With an injective digest, two hashes of a label are the same exactly when the digests of
its instances are. -/
theorem hashOfInstances_pairs (hinj : Function.Injective (digest : List UInt8 → D))
    {pairs : List (KeyedDigest D × KeyedDigest D)} (hne : pairs ≠ [])
    (hkind : ∀ pair ∈ pairs, pair.1.kind = pair.2.kind) :
    ∃ hash₁ hash₂, hashOfInstances (pairs.map Prod.fst) = some hash₁ ∧
      hashOfInstances (pairs.map Prod.snd) = some hash₂ ∧ hash₁.kind = hash₂.kind ∧
      (hash₁.hash = hash₂.hash ↔
        ∀ pair ∈ pairs, pair.1.digest.overall = pair.2.digest.overall) ∧
      (hash₁.directHash = hash₂.directHash ↔
        ∀ pair ∈ pairs, pair.1.digest.direct = pair.2.digest.direct) := by
  have hall : ∀ (part : TargetDigest D → D) (pairs : List (KeyedDigest D × KeyedDigest D)),
      (digest ((pairs.map Prod.fst).flatMap fun keyed => bytes (part keyed.digest)) : D) =
        digest ((pairs.map Prod.snd).flatMap fun keyed => bytes (part keyed.digest)) ↔
      ∀ pair ∈ pairs, part pair.1.digest = part pair.2.digest := by
    intro part pairs
    rw [hinj.eq_iff, List.flatMap_map, List.flatMap_map]
    exact flatMap_bytes_eq_iff
  match pairs, hne, hkind with
  | [pair], _, hkind =>
      exact ⟨_, _, rfl, rfl, hkind pair List.mem_cons_self, by simp [labelHash, labelDigests],
        by simp [labelHash, labelDigests]⟩
  | first :: second :: rest, _, hkind =>
      refine ⟨_, _, rfl, rfl, hkind first List.mem_cons_self, ?_, ?_⟩
      · rw [← hall (·.overall)]
        exact ⟨fun h => Digest.sha256.inj h, fun h => congrArg Digest.sha256 h⟩
      · rw [← hall (·.direct)]
        exact ⟨fun h => Digest.sha256.inj h, fun h => congrArg Digest.sha256 h⟩

end BazelDiff
