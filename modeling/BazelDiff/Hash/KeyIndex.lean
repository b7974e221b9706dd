/-
# The index of configured keys

An input whose instance is not in the result falls back to another instance of its label. The
instances are found through an index of the configured keys, which is built from the table on
the first miss. While generated files are still being aliased the table grows, and an index
that exists by then is kept up to date key by key. It is always the index that would be built
from the table as it is.
-/

import BazelDiff.Hash.Pieces

namespace BazelDiff

open Text HashFunction Outcome

variable {D : Type}

/-! ## Building the index -/

/-- The configured keys of a label. -/
def keysOfLabel (label : String) (keys : List String) : List String :=
  keys.filter fun key => (splitConfigured key).2.isSome && (splitConfigured key).1 == label

theorem mem_keysOfLabel {label key : String} {keys : List String} :
    key ∈ keysOfLabel label keys ↔ key ∈ keys ∧ (splitConfigured key).2.isSome = true ∧
      targetLabel key = label := by
  rw [keysOfLabel, List.mem_filter, Bool.and_eq_true, beq_iff_eq]
  rfl

/-- A group of the index, if it is not empty. -/
def groupOfKeys (group : List String) : Option (List String) :=
  if group = [] then none else some (group.insertionSort (· ≤ ·))

theorem groupOfKeys_perm {group group' : List String} (h : group.Perm group') :
    groupOfKeys group = groupOfKeys group' := by
  have hsort : group.insertionSort (· ≤ ·) = group'.insertionSort (· ≤ ·) :=
    Sorting.insertionSort_eq_of_perm h fun _ _ _ _ => le_antisymm
  have hempty : group = [] ↔ group' = [] := by
    constructor
    · rintro rfl
      exact h.nil_eq.symm
    · rintro rfl
      exact h.eq_nil
  rw [groupOfKeys, groupOfKeys, hsort]
  simp only [hempty]

/-- One iteration of the loop over the keys. -/
def indexKey (index : StringMap (List String)) (key : String) : StringMap (List String) :=
  match splitConfigured key with
  | (label, some _) => index.alter label fun group => some (group.getD [] ++ [key])
  | (_, none) => index

theorem configuredLabelInstances_eq (keys : List String) :
    configuredLabelInstances keys =
      (keys.foldl indexKey ∅).map fun _ group => group.insertionSort (· ≤ ·) :=
  rfl

/-- A group holds the keys of its label in the order they come in. -/
theorem getElem?_foldl_indexKey (keys : List String) (index : StringMap (List String))
    (label : String) :
    (keys.foldl indexKey index)[label]? =
      if keysOfLabel label keys = [] then index[label]?
      else some ((index[label]?).getD [] ++ keysOfLabel label keys) := by
  induction keys generalizing index with
  | nil => rfl
  | cons key rest ih =>
      rw [List.foldl_cons, ih, keysOfLabel, keysOfLabel, indexKey]
      rcases hsplit : splitConfigured key with ⟨found, checksum⟩
      cases checksum with
      | none => simp [hsplit]
      | some checksum =>
          by_cases hfound : found = label
          · subst hfound
            simp only [hsplit, List.filter_cons, Option.isSome_some, beq_self_eq_true,
              Bool.and_self, if_true, Std.ExtTreeMap.getElem?_alter_self]
            split_ifs with hrest <;> simp_all
          · simp [hsplit, hfound, Std.ExtTreeMap.getElem?_alter]

/-- The index lists the configured keys of each label in order. -/
theorem getElem?_configuredLabelInstances (keys : List String) (label : String) :
    (configuredLabelInstances keys)[label]? = groupOfKeys (keysOfLabel label keys) := by
  rw [configuredLabelInstances_eq, Std.ExtTreeMap.getElem?_map, getElem?_foldl_indexKey,
    groupOfKeys]
  split_ifs <;> simp

/-! ## Keeping it up to date -/

/-- A new key in a group that is in order. -/
theorem insertSorted_groupOfKeys {group group' : List String} {name : String}
    (hnodup : group.Nodup) (hnodup' : group'.Nodup)
    (hmem : ∀ key, key ∈ group' ↔ key = name ∨ key ∈ group) :
    some (Aliasing.insertSorted ((groupOfKeys group).getD []) name) = groupOfKeys group' := by
  have hsorted : (groupOfKeys group).getD [] = group.insertionSort (· ≤ ·) := by
    rw [groupOfKeys]
    split_ifs with hempty
    · rw [hempty]
      rfl
    · rfl
  have hne : group' ≠ [] := List.ne_nil_of_mem ((hmem name).mpr (Or.inl rfl))
  rw [hsorted, groupOfKeys, if_neg hne, Aliasing.insertSorted]
  congr 1
  split_ifs with hname
  · apply Sorting.insertionSort_eq_of_perm _ fun _ _ _ _ => le_antisymm
    rw [List.perm_ext_iff_of_nodup hnodup hnodup']
    intro key
    rw [hmem]
    have hname' : name ∈ group := (List.mem_insertionSort _).mp hname
    constructor
    · exact Or.inr
    · rintro (rfl | hkey)
      · exact hname'
      · exact hkey
  · have hfresh : name ∉ group := fun h => hname ((List.mem_insertionSort _).mpr h)
    rw [← List.insertionSort_cons]
    apply Sorting.insertionSort_eq_of_perm _ fun _ _ _ _ => le_antisymm
    rw [List.perm_ext_iff_of_nodup (List.nodup_cons.mpr ⟨hfresh, hnodup⟩) hnodup']
    intro key
    rw [hmem, List.mem_cons]

/-- A key that is new to the table is new to the index. -/
theorem indexAlias_configuredLabelInstances {keys keys' : List String} {name : String}
    (hnodup : keys.Nodup) (hnodup' : keys'.Nodup)
    (hmem : ∀ key, key ∈ keys' ↔ key = name ∨ key ∈ keys) :
    Aliasing.indexAlias name (configuredLabelInstances keys) = configuredLabelInstances keys' := by
  have hother : ∀ label, ((splitConfigured name).2.isSome = true → targetLabel name ≠ label) →
      groupOfKeys (keysOfLabel label keys) = groupOfKeys (keysOfLabel label keys') := by
    intro label hne
    apply groupOfKeys_perm
    rw [keysOfLabel, keysOfLabel, List.perm_ext_iff_of_nodup (hnodup.filter _) (hnodup'.filter _)]
    intro key
    rw [← keysOfLabel, ← keysOfLabel, mem_keysOfLabel, mem_keysOfLabel, hmem]
    constructor
    · rintro ⟨hkey, hconfigured⟩
      exact ⟨Or.inr hkey, hconfigured⟩
    · rintro ⟨rfl | hkey, hconfigured⟩
      · exact absurd hconfigured.2 (hne hconfigured.1)
      · exact ⟨hkey, hconfigured⟩
  apply Std.ExtTreeMap.ext_getElem?
  intro label
  rw [getElem?_configuredLabelInstances, Aliasing.indexAlias]
  rcases hsplit : splitConfigured name with ⟨found, checksum⟩
  have htarget : targetLabel name = found := by rw [targetLabel, hsplit]
  cases checksum with
  | none =>
      dsimp only
      rw [getElem?_configuredLabelInstances]
      apply hother
      rw [hsplit]
      intro hsome
      cases hsome
  | some checksum =>
      dsimp only
      rw [Std.ExtTreeMap.getElem?_alter, getElem?_configuredLabelInstances]
      split_ifs with hsame
      · obtain rfl := Std.LawfulEqOrd.eq_of_compare hsame
        apply insertSorted_groupOfKeys (hnodup.filter _) (hnodup'.filter _)
        intro key
        rw [← keysOfLabel, mem_keysOfLabel, ← keysOfLabel, mem_keysOfLabel, hmem]
        constructor
        · rintro ⟨rfl | hkey, hconfigured⟩
          · exact Or.inl rfl
          · exact Or.inr ⟨hkey, hconfigured⟩
        · rintro (rfl | ⟨hkey, hconfigured⟩)
          · exact ⟨Or.inl rfl, by rw [hsplit]; rfl, htarget⟩
          · exact ⟨Or.inr hkey, hconfigured⟩
      · rw [getElem?_configuredLabelInstances]
        apply hother
        rintro - rfl
        exact hsame (by rw [htarget, Std.ReflOrd.compare_self])

/-! ## The index while files are aliased -/

theorem nodup_ruleKeys (rules : Labels D) : rules.ruleKeys.Nodup :=
  (rules.ids.ordered_keys.sublist List.filter_sublist).imp fun {a b} hab heq => by
    rw [heq, Std.ReflOrd.compare_self] at hab
    cases hab

theorem mem_ruleKeys {rules : Labels D} {key : String} :
    key ∈ rules.ruleKeys ↔ (rules.find key).rule.isSome = true :=
  SlotTable.mem_keysWith rules rfl

/-- An index that exists is the one that would be built now. -/
def Aliasing.Indexed (aliasing : Aliasing D) : Prop :=
  ∀ index, aliasing.labelInstances = some index →
    index = configuredLabelInstances aliasing.rules.ruleKeys

/-- Looking for the rule of a file builds the index at most. -/
theorem Aliasing.Indexed.generatingNode {aliasing : Aliasing D} (h : aliasing.Indexed)
    (generatingRule : String) :
    (aliasing.generatingNode generatingRule).1.Indexed ∧
      (aliasing.generatingNode generatingRule).1.rules = aliasing.rules := by
  rw [Aliasing.generatingNode]
  split
  · exact ⟨h, rfl⟩
  · refine ⟨?_, rfl⟩
    intro index hindex
    dsimp only at hindex ⊢
    obtain rfl := Option.some.inj hindex
    cases hold : aliasing.labelInstances with
    | none => rfl
    | some old => exact h old hold

/-- An alias keeps the index up to date. -/
theorem Aliasing.Indexed.add {aliasing : Aliasing D} (h : aliasing.Indexed)
    (name generatingRule : String) :
    Ensures Aliasing.Indexed (aliasing.add name generatingRule) := by
  obtain ⟨hindexed, -⟩ := h.generatingNode generatingRule
  rw [Aliasing.add]
  generalize aliasing.generatingNode generatingRule = generating at hindexed ⊢
  obtain ⟨found, node⟩ := generating
  dsimp only at hindexed ⊢
  refine Ensures.bind (P := fun _ => True) (fun _ _ => trivial) fun node _ => Ensures.pure ?_
  intro index hindex
  obtain ⟨old, hold, rfl⟩ := Option.map_eq_some_iff.mp hindex
  dsimp only
  rw [hindexed old hold]
  apply indexAlias_configuredLabelInstances (nodup_ruleKeys _) (nodup_ruleKeys _)
  intro key
  rw [mem_ruleKeys, mem_ruleKeys, SlotTable.find_update]
  split_ifs with hname
  · simp [Aliasing.replaceRule, hname]
  · have hne : key ≠ name := fun heq => hname heq.symm
    simp [hne]

/-- When all files are aliased, the index is that of the final table. -/
theorem aliasTargets_indexed (rules : Labels D) (recorder : Option RecipeRecorder)
    (targets : List HashTarget) :
    Ensures Aliasing.Indexed (aliasTargets rules recorder targets) := by
  apply Ensures.foldlM
  · intro target _ aliasing h
    cases target with
    | rule name => exact Ensures.ok h
    | source name => exact Ensures.ok h
    | generated name generatingRule => exact h.add name generatingRule
  · intro index hindex
    cases hindex

variable [HashFunction D]

/-- A traversal starts from the index that would be built from its table. -/
theorem start_instances {options : HashOptions} {targets : List Target}
    {digests : PreparedRules D} {environment : Environment D} {prepared : Prepared D}
    (h : prepareTargets options targets digests environment = .ok prepared) :
    prepared.state.instances = configuredLabelInstances prepared.state.rules.ruleKeys := by
  rw [prepareTargets] at h
  split_ifs at h
  · cases h
  · obtain ⟨seedHash, -, h⟩ := bind_eq_ok h
    obtain ⟨seeds, -, h⟩ := bind_eq_ok h
    obtain ⟨sources, -, h⟩ := bind_eq_ok h
    obtain ⟨graph, -, h⟩ := bind_eq_ok h
    obtain ⟨aliasing, halias, h⟩ := bind_eq_ok h
    cases h
    have hindexed := aliasTargets_indexed _ _ _ aliasing halias
    rw [HashState.instances]
    dsimp only
    cases hindex : aliasing.labelInstances with
    | none => rfl
    | some index => exact hindexed index hindex

omit [HashFunction D] in
/-- The index of a traversal lists the configured keys that stand for a rule. -/
theorem indexOk_of_instances {state : HashState D}
    (h : state.instances = configuredLabelInstances state.rules.ruleKeys) : IndexOk state where
  listed := by
    intro key hkey hconfigured
    have hmem : key ∈ keysOfLabel (targetLabel key) state.rules.ruleKeys := by
      refine mem_keysOfLabel.mpr ⟨mem_ruleKeys.mpr hkey, ?_, rfl⟩
      rcases splitConfigured_cases key with ⟨label, checksum, -, -, -, heq⟩ | heq
      · rw [heq]
        rfl
      · exact absurd (by rw [targetLabel, heq]) hconfigured
    refine ⟨(keysOfLabel (targetLabel key) state.rules.ruleKeys).insertionSort (· ≤ ·), ?_,
      (List.mem_insertionSort _).mpr hmem⟩
    rw [h, getElem?_configuredLabelInstances, groupOfKeys, if_neg (List.ne_nil_of_mem hmem)]
  stands := by
    intro label keys hkeys key hkey
    rw [h, getElem?_configuredLabelInstances, groupOfKeys] at hkeys
    split_ifs at hkeys with hempty
    obtain rfl := Option.some.inj hkeys
    have hmem := (List.mem_insertionSort _).mp hkey
    exact mem_ruleKeys.mp (mem_keysOfLabel.mp hmem).1

end BazelDiff
