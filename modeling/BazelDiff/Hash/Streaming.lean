/-
# Prehashing before repeated names are dropped

The streaming pipeline takes a rule's definition digest as its record arrives and files
it under the rule's name, where a later record of the name overwrites it. Repeated names
are dropped afterwards, and the first record stays. The two agree with the pipeline that
drops repeated names first exactly when the last record of every rule that stays has the
definition of the first.
-/

import BazelDiff.Hash.DirectHash

namespace BazelDiff

open Text HashFunction Outcome

variable {D : Type}

/-! ## Dropping repeated names -/

theorem nodup_names_deduplicateTargets (records : List Target) :
    (names (deduplicateTargets records)).Nodup := by
  have hfold : ∀ (records : List Target) (state : List Target × List String),
      (names state.1).Nodup → (∀ name ∈ names state.1, name ∈ state.2) →
      (names (records.foldl deduplicateTargets.keepFirst state).1).Nodup := by
    intro records
    induction records with
    | nil => exact fun _ h _ => h
    | cons record rest ih =>
        intro state hnodup hseen
        rw [List.foldl_cons]
        cases hname : targetName record with
        | none =>
            have hskip : deduplicateTargets.keepFirst state record = state := by
              simp [deduplicateTargets.keepFirst, hname]
            rw [hskip]
            exact ih state hnodup hseen
        | some name =>
            by_cases hmem : name ∈ state.2
            · have hskip : deduplicateTargets.keepFirst state record = state := by
                simp [deduplicateTargets.keepFirst, hname, hmem]
              rw [hskip]
              exact ih state hnodup hseen
            · have hkeep : deduplicateTargets.keepFirst state record =
                  (state.1 ++ [record], name :: state.2) := by
                simp [deduplicateTargets.keepFirst, hname, hmem]
              have hnames : names (state.1 ++ [record]) = names state.1 ++ [name] := by
                simp [names, hname]
              rw [hkeep]
              apply ih
              · rw [hnames, List.nodup_append_comm, List.singleton_append, List.nodup_cons]
                exact ⟨fun h => hmem (hseen name h), hnodup⟩
              · intro other hother
                rw [hnames, List.mem_append, List.mem_singleton] at hother
                rcases hother with hother | rfl
                · exact List.mem_cons_of_mem _ (hseen other hother)
                · exact List.mem_cons_self
  exact hfold records ([], []) (by simp [names]) (by simp [names])

theorem deduplicateTargets_map {f : Target → Target}
    (hf : ∀ record, targetName (f record) = targetName record) (records : List Target) :
    deduplicateTargets (records.map f) = (deduplicateTargets records).map f := by
  have hfold : ∀ (records : List Target) (kept : List Target) (seen : List String),
      (records.map f).foldl deduplicateTargets.keepFirst (kept.map f, seen) =
        (((records.foldl deduplicateTargets.keepFirst (kept, seen)).1.map f),
          (records.foldl deduplicateTargets.keepFirst (kept, seen)).2) := by
    intro records
    induction records with
    | nil => exact fun _ _ => rfl
    | cons record rest ih =>
        intro kept seen
        rw [List.map_cons, List.foldl_cons, List.foldl_cons]
        have hstep : deduplicateTargets.keepFirst (kept.map f, seen) (f record) =
            ((deduplicateTargets.keepFirst (kept, seen) record).1.map f,
              (deduplicateTargets.keepFirst (kept, seen) record).2) := by
          rw [deduplicateTargets.keepFirst, deduplicateTargets.keepFirst, hf]
          cases targetName record with
          | none => rfl
          | some name =>
              dsimp only
              split_ifs
              · rfl
              · simp
        rw [hstep]
        exact ih _ _
  have hfold' := hfold records [] []
  rw [deduplicateTargets, deduplicateTargets]
  exact congrArg Prod.fst hfold'

theorem mem_deduplicateTargets {records : List Target} {record : Target}
    (h : record ∈ deduplicateTargets records) : record ∈ records := by
  have hfold : ∀ (rest : List Target) (state : List Target × List String),
      (∀ kept ∈ state.1, kept ∈ records) → (∀ next ∈ rest, next ∈ records) →
      ∀ kept ∈ (rest.foldl deduplicateTargets.keepFirst state).1, kept ∈ records := by
    intro rest
    induction rest with
    | nil => exact fun _ h _ => h
    | cons first rest ih =>
        intro state hkept hrest
        apply ih
        · intro kept hmem
          rw [deduplicateTargets.keepFirst] at hmem
          split at hmem
          · split_ifs at hmem
            · exact hkept kept hmem
            · rcases List.mem_append.mp hmem with hmem | hmem
              · exact hkept kept hmem
              · rw [List.mem_singleton.mp hmem]
                exact hrest first List.mem_cons_self
          · exact hkept kept hmem
        · exact fun next hnext => hrest next (List.mem_cons_of_mem _ hnext)
  exact hfold records ([], []) (by simp) (fun _ h => h) record h

theorem names_deduplicateTargets_subset {records : List Target} {name : String}
    (h : name ∈ names (deduplicateTargets records)) : name ∈ names records := by
  obtain ⟨record, hrecord, hname⟩ := List.mem_filterMap.mp h
  exact List.mem_filterMap.mpr ⟨record, mem_deduplicateTargets hrecord, hname⟩

/-! ## Prehashed records -/

/-- A record without the attributes nothing reads after prehashing. -/
def stripTarget (target : Target) : Target :=
  { target with rule := target.rule.map stripAttributes }

theorem targetName_stripTarget (target : Target) :
    targetName (stripTarget target) = targetName target := by
  rw [targetName, targetName, stripTarget]
  cases target.type <;> dsimp only
  rw [Option.map_map]
  rfl

theorem ruleOf_stripTarget (target : Target) :
    ruleOf (stripTarget target) = (ruleOf target).map stripAttributes := by
  rw [ruleOf, ruleOf, stripTarget]
  split_ifs <;> rfl

/-- The last record of a name that carries a rule. -/
def lastRule (records : List Target) (name : String) : Option Rule :=
  (records.filterMap (·.rule)).reverse.find? (·.name = name)

/-- Batches that share no inputs. -/
def unsharedBatches (batches : List (List Target)) : Batches :=
  batches.map fun batch => (batch, none)

theorem find_extend (rules : List (String × PreparedRule D)) (prepared : PreparedRules D)
    (name : String) :
    (PreparedRules.extend prepared rules).find name =
      ((rules.reverse.find? (·.1 = name)).map (·.2)).or (prepared.find name) := by
  induction rules generalizing prepared with
  | nil => simp [PreparedRules.extend]
  | cons first rest ih =>
      have hcons : PreparedRules.extend prepared (first :: rest) =
          PreparedRules.extend (prepared.update first.1 fun _ => some first.2) rest := rfl
      rw [hcons, ih, List.reverse_cons, List.find?_append, SlotTable.find_update]
      cases rest.reverse.find? (·.1 = name) with
      | some found => simp
      | none =>
          by_cases hname : first.1 = name
          · simp [hname]
          · simp [hname]

variable [HashFunction D]

/-- What a prehashed rule is filed with. -/
def filedRule (encode : Attribute → List UInt8) (options : HashOptions) (workspace : Workspace)
    (rule : Rule) : PreparedRule D where
  definitionDigest := ruleDefinitionDigest encode rule options.ignoredAttributes
  loadingInputs := partialLoadingInputs options workspace rule

/-- Prehashing strips every record and files every rule under its name, the last one of a name
to stay. -/
theorem prehashBatches_unshared (encode : Attribute → List UInt8) (options : HashOptions)
    (workspace : Workspace) (prepared : PreparedRules D) (batches : List (List Target)) :
    (prehashBatches encode options workspace prepared (unsharedBatches batches)).1 =
        batches.flatten.map stripTarget ∧
      ∀ name, (prehashBatches encode options workspace prepared
        (unsharedBatches batches)).2.find name =
          ((lastRule batches.flatten name).map (filedRule encode options workspace)).or
            (prepared.find name) := by
  have hprehash : ∀ target, prehash (D := D) encode options workspace none target =
      (stripTarget target, target.rule.map fun rule =>
        (rule.name, filedRule encode options workspace rule)) := by
    rintro ⟨type, rule, sourceFile, generatedFile, packageGroup, environmentGroup⟩
    cases rule <;> rfl
  have hflat : (unsharedBatches batches).flatMap (fun batch =>
      batch.1.map (prehash (D := D) encode options workspace batch.2)) =
      batches.flatten.map (prehash encode options workspace none) := by
    rw [unsharedBatches, List.flatMap_map, List.map_flatten]
    rfl
  rw [prehashBatches]
  dsimp only
  rw [hflat]
  refine ⟨?_, fun name => ?_⟩
  · rw [List.map_map]
    apply List.map_congr_left
    intro target _
    rw [Function.comp_apply, hprehash]
  · have hrules : (batches.flatten.map (prehash (D := D) encode options workspace none)).filterMap
        (·.2) = (batches.flatten.filterMap (·.rule)).map fun rule =>
          (rule.name, filedRule encode options workspace rule) := by
      rw [List.filterMap_map, List.map_filterMap]
      congr 1
      funext target
      rw [Function.comp_apply, hprehash]
    rw [hrules, find_extend, ← List.map_reverse, List.find?_map, Option.map_map, lastRule]
    rfl

/-- The preparations the streaming pipeline hands to the hasher. -/
def filedRules (options : HashOptions) (repositories batches : List (List Target))
    (environment : Environment D) : PreparedRules D :=
  (prehashBatches environment.encode options (environment.workspace options)
    (prehashBatches environment.encode options (environment.workspace options) SlotTable.empty
      (unsharedBatches repositories)).2 (unsharedBatches batches)).2

/-- Every rule is filed with the digest of the last record of its name. -/
theorem find_filedRules (options : HashOptions) (repositories batches : List (List Target))
    (environment : Environment D) (name : String) :
    (filedRules options repositories batches environment).find name =
      (lastRule (repositories.flatten ++ batches.flatten) name).map
        (filedRule environment.encode options (environment.workspace options)) := by
  have hnone : (default : Option (PreparedRule D)) = none := rfl
  rw [filedRules, (prehashBatches_unshared _ _ _ _ _).2, (prehashBatches_unshared _ _ _ _ _).2,
    SlotTable.find_empty, hnone, Option.or_none, ← Option.map_or, lastRule, lastRule, lastRule,
    List.filterMap_append, List.reverse_append, List.find?_append]

/-- What the streaming pipeline hands to the hasher: every record stripped, after repeated names
were dropped. -/
theorem hashBatches_unshared (options : HashOptions) (repositories batches : List (List Target))
    (environment : Environment D) :
    hashBatches options (unsharedBatches repositories) (unsharedBatches batches) environment =
      hashTargetsWithEnvironment options
        ((deduplicateTargets (batches.flatten ++ repositories.flatten)).map stripTarget)
        (filedRules options repositories batches environment) environment := by
  rw [hashBatches]
  dsimp only
  rw [(prehashBatches_unshared _ _ _ _ _).1, (prehashBatches_unshared _ _ _ _ _).1,
    ← List.map_append, deduplicateTargets_map targetName_stripTarget]
  rfl

/-! ## When the last record has the definition of the first -/

/-- Every rule that stays has the definition of the last record of its name to be prehashed.
The records of module repositories are prehashed before those of the query and come after
them. -/
def LastMatchesFirst (encode : Attribute → List UInt8) (ignored : StringSet)
    (repositories queried : List Target) : Prop :=
  ∀ target ∈ deduplicateTargets (queried ++ repositories), ∀ rule, ruleOf target = some rule →
    ∀ last, lastRule (repositories ++ queried) rule.name = some last →
      ruleDefinition encode last ignored = ruleDefinition encode rule ignored

omit [HashFunction D] in
/-- A rule that stays has a last record. -/
theorem lastRule_of_ruleOf {records : List Target} {target : Target} {rule : Rule}
    (hmem : target ∈ records) (hrule : ruleOf target = some rule) :
    ∃ last, lastRule records rule.name = some last := by
  have hpart : target.rule = some rule := by
    rw [ruleOf] at hrule
    split_ifs at hrule
    exact hrule
  apply Option.isSome_iff_exists.mp
  rw [lastRule, List.find?_isSome]
  refine ⟨rule, ?_, by simp⟩
  rw [List.mem_reverse]
  exact List.mem_filterMap.mpr ⟨target, hmem, hpart⟩

omit [HashFunction D] in
theorem findRule_map_stripTarget (targets : List Target) (name : String) :
    findRule (targets.map stripTarget) name = (findRule targets name).map stripAttributes := by
  have hrules : (targets.map stripTarget).filterMap ruleOf =
      (targets.filterMap ruleOf).map stripAttributes := by
    rw [List.filterMap_map, List.map_filterMap]
    congr 1
    funext target
    exact ruleOf_stripTarget target
  rw [findRule, findRule, hrules, List.find?_map]
  rfl

omit [HashFunction D] in
theorem names_map_stripTarget (targets : List Target) :
    names (targets.map stripTarget) = names targets := by
  rw [names, List.filterMap_map, names]
  congr 1
  funext target
  exact targetName_stripTarget target

omit [HashFunction D] in
theorem hashTargets_map_stripTarget (targets : List Target) :
    (targets.map stripTarget).filterMap hashTargetOf = targets.filterMap hashTargetOf := by
  rw [List.filterMap_map]
  congr 1
  funext target
  rw [Function.comp_apply, hashTargetOf, hashTargetOf, stripTarget]
  cases target.type <;> dsimp only
  rw [Option.map_map]
  rfl

omit [HashFunction D] in
theorem hasInstantiationStacks_map_stripTarget (targets : List Target) :
    hasInstantiationStacks (targets.map stripTarget) = hasInstantiationStacks targets := by
  rw [hasInstantiationStacks, hasInstantiationStacks, List.any_map]
  congr 1
  funext target
  rw [Function.comp_apply, stripTarget]
  dsimp only
  rw [Option.any_map]
  rfl

omit [HashFunction D] in
theorem ownRule_map_stripTarget (targets : List Target) :
    ownRule (targets.map stripTarget) = ownRule targets := by
  funext key
  rw [ownRule, ownRule, findRule_map_stripTarget, Option.map_map]
  rfl

section Streaming

variable {options : HashOptions} {environment : Environment D} {records : List Target}
  {prepared : PreparedRules D}

/-- The node of a stripped rule that was filed with the definition of another record. -/
theorem nodeOf_stripAttributes {rule last : Rule}
    (hfiled : prepared.find rule.name = some (filedRule environment.encode options
      (environment.workspace options) last)) :
    nodeOf prepared environment options (stripAttributes rule) =
      { rule := stripAttributes rule
        prepared := filedRule environment.encode options (environment.workspace options) last } := by
  have hname : (stripAttributes rule).name = rule.name := rfl
  rw [nodeOf, hname, hfiled]

/-- Stripped records are hashed like the records they come from, if their rules were filed with
the same definitions. -/
theorem streaming_records (hnodup : (names records).Nodup)
    (hfiled : ∀ target ∈ records, ∀ rule, ruleOf target = some rule → ∃ last,
      prepared.find rule.name = some (filedRule environment.encode options
        (environment.workspace options) last) ∧
      ruleDefinition environment.encode last options.ignoredAttributes =
        ruleDefinition environment.encode rule options.ignoredAttributes) :
    RecordsRel False options options environment environment prepared SlotTable.empty
      (records.map stripTarget) records := by
  refine ⟨names_map_stripTarget records ▸ hnodup, hnodup, hashTargets_map_stripTarget records, ?_,
    hasInstantiationStacks_map_stripTarget records, fun name => ?_⟩
  · rw [List.filterMap_map]
    rfl
  · rw [findRule_map_stripTarget]
    cases hrule : findRule records name with
    | none => exact .none
    | some rule =>
        obtain ⟨target, hmem, hruleOf, -⟩ := (findRule_eq_some_iff hnodup).mp hrule
        obtain ⟨last, hlast, hdefinition⟩ := hfiled target hmem rule hruleOf
        refine .some ?_
        rw [nodeOf_stripAttributes hlast, nodeOf, SlotTable.find_empty]
        refine ⟨rfl, rfl, ?_, rfl, rfl, ruleTags_stripAttributes rule,
          visibilityPackageGroups_stripAttributes rule, rfl, rfl, rfl, False.elim⟩
        exact congrArg digest hdefinition

theorem bzlSeeds_map_stripTarget (options : HashOptions) (targets : List Target)
    (environment : Environment D) :
    bzlSeeds options (targets.map stripTarget) environment = bzlSeeds options targets environment := by
  rw [bzlSeeds, bzlSeeds, hasInstantiationStacks_map_stripTarget, packageBzlSeeds,
    packageBzlSeeds, List.filterMap_map]
  rfl

/-- Stripped records whose rules were filed with their own definitions get the same hashes and
the same edges. -/
theorem streamed_related (hnodup : (names records).Nodup)
    (hfiled : ∀ target ∈ records, ∀ rule, ruleOf target = some rule → ∃ last,
      prepared.find rule.name = some (filedRule environment.encode options
        (environment.workspace options) last) ∧
      ruleDefinition environment.encode last options.ignoredAttributes =
        ruleDefinition environment.encode rule options.ignoredAttributes) :
    Related (FileRel True False)
      (hashTargetsWithEnvironment options (records.map stripTarget) prepared environment)
      (hashTargetsWithEnvironment options records SlotTable.empty environment) := by
  have hset : SettingRel True False options options environment environment :=
    ⟨rfl, rfl, rfl, rfl, Or.inr rfl, rfl,
      fun label => Related.refl (fun soft => Option.Rel.refl_of (fun d => AgreeIf.refl d) soft) _,
      False.elim⟩
  have hsources : sourceTargets (records.map stripTarget) = sourceTargets records := by
    rw [sourceTargets, List.filterMap_map]
    rfl
  apply hashTargetsWithEnvironment_related rfl
  · apply Option.Rel.refl_of
    exact fun tree => ⟨AgreeIf.refl tree, fun _ => rfl⟩
  · apply prepareTargets_related hset (streaming_records hnodup hfiled) (fun _ _ _ _ => rfl)
      rfl rfl (bzlSeeds_map_stripTarget options records environment)
    · rw [hsources]
      apply Related.refl
      exact fun sources => List.forall₂_same.mpr fun source _ => ⟨rfl, AgreeIf.refl _⟩
    · exact Or.inr ⟨trivial, rfl⟩

end Streaming

/-- Two generations that fail alike or return the same hashes and the same edges. -/
def SameHashes (first second : Result (HashFileData D)) : Prop :=
  Related (fun file file' => file.hashes = file'.hashes ∧ file.depEdges = file'.depEdges)
    first second

/-- The streaming pipeline returns what the plain one returns if every rule that stays has the
definition of the last record of its name to be prehashed, and only then. -/
theorem streaming_eq_plain_iff (options : HashOptions) (repositories batches : List (List Target))
    (environment : Environment D) :
    (LastMatchesFirst environment.encode options.ignoredAttributes repositories.flatten
        batches.flatten →
      SameHashes
        (hashBatches options (unsharedBatches repositories) (unsharedBatches batches) environment)
        (hashTargets options (deduplicateTargets (batches.flatten ++ repositories.flatten))
          environment)) ∧
    (∀ plain, hashTargets options (deduplicateTargets (batches.flatten ++ repositories.flatten))
        environment = .ok plain →
      Function.Injective (digest : List UInt8 → D) →
      (options.partialTree = none ∨
        ∀ name ∈ names (batches.flatten ++ repositories.flatten), targetLabel name = name) →
      SameHashes
        (hashBatches options (unsharedBatches repositories) (unsharedBatches batches) environment)
        (hashTargets options (deduplicateTargets (batches.flatten ++ repositories.flatten))
          environment) →
      LastMatchesFirst environment.encode options.ignoredAttributes repositories.flatten
        batches.flatten) := by
  have hnodup := nodup_names_deduplicateTargets (batches.flatten ++ repositories.flatten)
  rw [hashBatches_unshared, hashTargets]
  constructor
  · intro hlast
    apply (streamed_related hnodup ?_).mono
    · intro file file' h
      exact ⟨(h.hashes.mono fun _ _ hh => hh.2 trivial).eq, h.depEdges⟩
    · intro target hmem rule hrule
      have hrecord : target ∈ repositories.flatten ++ batches.flatten :=
        (List.mem_append.mp (mem_deduplicateTargets hmem)).elim
          (List.mem_append_right _) (List.mem_append_left _)
      obtain ⟨last, hfound⟩ := lastRule_of_ruleOf hrecord hrule
      refine ⟨last, ?_, hlast target hmem rule hrule last hfound⟩
      rw [find_filedRules, hfound, Option.map_some]
  · intro plain hplain hinj hmode hsame target hmem rule hrule last hfound
    obtain ⟨streamed, hstreamed, hhashes, -⟩ := hsame.ok_right hplain
    have hfind : findRule (deduplicateTargets (batches.flatten ++ repositories.flatten))
        rule.name = some rule := (findRule_eq_some_iff hnodup).mpr ⟨target, hmem, hrule, rfl⟩
    have hstripped := findRule_map_stripTarget
      (deduplicateTargets (batches.flatten ++ repositories.flatten)) rule.name
    rw [hfind, Option.map_some] at hstripped
    have hfiled := find_filedRules options repositories batches environment rule.name
    rw [hfound, Option.map_some] at hfiled
    have hnodup' : (names ((deduplicateTargets (batches.flatten ++ repositories.flatten)).map
        stripTarget)).Nodup := by
      rw [names_map_stripTarget]
      exact hnodup
    have hdefinition := definitions_of_same_hashes hinj hnodup' hnodup
      (hashTargets_map_stripTarget _) (ownRule_map_stripTarget _) (names_map_stripTarget _)
      (hmode.imp_right fun h name hname => h name (names_deduplicateTargets_subset hname))
      hstreamed hplain hhashes hstripped hfind
    rw [nodeOf_stripAttributes hfiled, nodeOf, SlotTable.find_empty] at hdefinition
    exact hinj hdefinition

/-- A rule whose second record has another class. -/
def reclassified : List Target :=
  [{ type := .rule, rule := some { name := "//p:r", ruleClass := "first" } },
    { type := .rule, rule := some { name := "//p:r", ruleClass := "second" } }]

/-- On two records of one rule with different definitions the pipelines disagree. -/
theorem streaming_ne_plain_reclassified :
    ¬ SameHashes (hashBatches {} [] (unsharedBatches [reclassified]) Environment.bare)
      (hashTargets {} (deduplicateTargets reclassified) Environment.bare) := by
  have hcompared : (do
      let streamed ← hashBatches {} [] (unsharedBatches [reclassified]) Environment.bare
      let plain ← hashTargets {} (deduplicateTargets reclassified) Environment.bare
      return decide (streamed.hashes.toList = plain.hashes.toList)) = .ok false := by
    decide +kernel
  obtain ⟨streamed, hstreamed, hcompared⟩ := bind_eq_ok hcompared
  obtain ⟨plain, hplain, hcompared⟩ := bind_eq_ok hcompared
  intro hsame
  obtain ⟨plain', hplain', hhashes, -⟩ := hsame.ok_left hstreamed
  obtain rfl : plain' = plain := Except.ok.inj (hplain'.symm.trans hplain)
  exact of_decide_eq_false (Except.ok.inj hcompared) (congrArg _ hhashes)

end BazelDiff
