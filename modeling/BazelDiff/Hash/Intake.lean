/-
# The graph a query result stands for

When the names of the records are distinct, the table and the nodes the intake builds
are functions of the set of records: a rule's node is found under its name, with its
prepared digest when there is one, and a label's slot says whether it names a rule and
whether it names a source.
-/

import BazelDiff.Hash.Generate
import BazelDiff.Lib.Outcome

namespace BazelDiff

open Text HashFunction Outcome

variable {D : Type}

/-! ## The parts of a record that count -/

/-- The rule of a rule record. -/
def ruleOf (target : Target) : Option Rule :=
  if target.type = .rule then target.rule else none

/-- The file of a generated-file record. -/
def generatedOf (target : Target) : Option GeneratedFile :=
  if target.type = .generatedFile then target.generatedFile else none

/-- The file of a source-file record. -/
def sourceOf (target : Target) : Option SourceFile :=
  if target.type = .sourceFile then target.sourceFile else none

/-- The target a record is hashed as. -/
def hashTargetOf (target : Target) : Option HashTarget :=
  match target.type with
  | .rule => target.rule.map fun rule => .rule rule.name
  | .generatedFile => target.generatedFile.map fun file => .generated file.name file.generatingRule
  | .sourceFile => target.sourceFile.map fun source => .source source.name
  | _ => none

/-- The names of the records. -/
def names (targets : List Target) : List String :=
  targets.filterMap targetName

/-- The rule of a name. -/
def findRule (targets : List Target) (name : String) : Option Rule :=
  (targets.filterMap ruleOf).find? fun rule => rule.name = name

/-- The source targets, in query order. -/
def sourceTargets (targets : List Target) : List SourceTarget :=
  (targets.filterMap sourceOf).map fun source => ⟨source.name, source.subinclude⟩

theorem targetName_of_ruleOf {target : Target} {rule : Rule} (h : ruleOf target = some rule) :
    targetName target = some rule.name := by
  obtain ⟨htype, hrule⟩ : target.type = .rule ∧ target.rule = some rule := by
    simpa [ruleOf] using h
  simp [targetName, htype, hrule]

theorem targetName_of_sourceOf {target : Target} {source : SourceFile}
    (h : sourceOf target = some source) : targetName target = some source.name := by
  obtain ⟨htype, hsource⟩ : target.type = .sourceFile ∧ target.sourceFile = some source := by
    simpa [sourceOf] using h
  simp [targetName, htype, hsource]

theorem targetName_of_generatedOf {target : Target} {file : GeneratedFile}
    (h : generatedOf target = some file) : targetName target = some file.name := by
  obtain ⟨htype, hfile⟩ : target.type = .generatedFile ∧ target.generatedFile = some file := by
    simpa [generatedOf] using h
  simp [targetName, htype, hfile]

theorem targetName_of_hashTargetOf {target : Target} {hashed : HashTarget}
    (h : hashTargetOf target = some hashed) : targetName target = some hashed.label := by
  cases htype : target.type <;> simp only [hashTargetOf, targetName, htype] at h ⊢
  · obtain ⟨rule, hrule, rfl⟩ := Option.map_eq_some_iff.mp h
    simp [hrule, HashTarget.label]
  · obtain ⟨source, hsource, rfl⟩ := Option.map_eq_some_iff.mp h
    simp [hsource, HashTarget.label]
  · obtain ⟨file, hfile, rfl⟩ := Option.map_eq_some_iff.mp h
    simp [hfile, HashTarget.label]
  · cases h
  · cases h

/-- In a list whose items have distinct names, an item is determined by its name. -/
theorem eq_of_name_eq {targets : List Target} (hnodup : (names targets).Nodup)
    {target target' : Target} (hmem : target ∈ targets) (hmem' : target' ∈ targets)
    {name : String} (hname : targetName target = some name)
    (hname' : targetName target' = some name) : target = target' := by
  induction targets with
  | nil => simp at hmem
  | cons first rest ih =>
      have hrest : (names rest).Nodup :=
        hnodup.sublist ((List.sublist_cons_self first rest).filterMap targetName)
      have hfresh : targetName first = some name → name ∉ names rest := by
        intro hfirst
        have hcons : names (first :: rest) = name :: names rest := by
          rw [names, List.filterMap_cons_some hfirst, names]
        exact (List.nodup_cons.mp (hcons ▸ hnodup)).1
      have hin : ∀ {t : Target}, t ∈ rest → targetName t = some name → name ∈ names rest :=
        fun ht hname => List.mem_filterMap.mpr ⟨_, ht, hname⟩
      rcases List.mem_cons.mp hmem with h | h <;> rcases List.mem_cons.mp hmem' with h' | h'
      · rw [h, h']
      · exact absurd (hin h' hname') (hfresh (h ▸ hname))
      · exact absurd (hin h hname) (hfresh (h' ▸ hname'))
      · exact ih hrest h h'

/-- The rule of a name is the rule record of that name. -/
theorem findRule_eq_some_iff {targets : List Target} (hnodup : (names targets).Nodup)
    {name : String} {rule : Rule} :
    findRule targets name = some rule ↔
      ∃ target ∈ targets, ruleOf target = some rule ∧ rule.name = name := by
  constructor
  · intro h
    obtain ⟨target, hmem, hrule⟩ := List.mem_filterMap.mp (List.mem_of_find?_eq_some h)
    exact ⟨target, hmem, hrule, by simpa using List.find?_some h⟩
  · rintro ⟨target, hmem, hrule, rfl⟩
    have hsome : (findRule targets rule.name).isSome := by
      rw [findRule, List.find?_isSome]
      exact ⟨rule, List.mem_filterMap.mpr ⟨target, hmem, hrule⟩, by simp⟩
    obtain ⟨found, hfound⟩ := Option.isSome_iff_exists.mp hsome
    obtain ⟨target', hmem', hrule'⟩ := List.mem_filterMap.mp (List.mem_of_find?_eq_some hfound)
    have hname : found.name = rule.name := by simpa using List.find?_some hfound
    have heq : target' = target := eq_of_name_eq hnodup hmem' hmem
      (hname ▸ targetName_of_ruleOf hrule') (targetName_of_ruleOf hrule)
    rw [hfound, ← hrule', heq, hrule]

theorem findRule_name {targets : List Target} {name : String} {rule : Rule}
    (h : findRule targets name = some rule) : rule.name = name := by
  simpa using List.find?_some h

/-- The rule of a name does not depend on the order of the records. -/
theorem findRule_perm {targets targets' : List Target} (hnodup : (names targets).Nodup)
    (hperm : targets.Perm targets') (name : String) :
    findRule targets name = findRule targets' name := by
  have hnodup' : (names targets').Nodup := (hperm.filterMap _).nodup_iff.mp hnodup
  refine Option.ext fun rule => ?_
  rw [findRule_eq_some_iff hnodup, findRule_eq_some_iff hnodup']
  simp only [hperm.mem_iff]

/-! ## The loop over the records -/

theorem names_cons_nodup {first : Target} {rest : List Target}
    (hnodup : (names (first :: rest)).Nodup) :
    (names rest).Nodup ∧ ∀ name, targetName first = some name → name ∉ names rest := by
  refine ⟨hnodup.sublist ((List.sublist_cons_self first rest).filterMap targetName),
    fun name hname => ?_⟩
  have hcons : names (first :: rest) = name :: names rest := by
    rw [names, List.filterMap_cons_some hname, names]
  exact (List.nodup_cons.mp (hcons ▸ hnodup)).1

theorem findRule_cons_some {first : Target} {rule : Rule} (h : ruleOf first = some rule)
    (rest : List Target) (name : String) :
    findRule (first :: rest) name =
      if rule.name = name then some rule else findRule rest name := by
  rw [findRule, List.filterMap_cons_some h, List.find?_cons]
  by_cases hname : rule.name = name <;> simp [hname, findRule]

theorem findRule_cons_none {first : Target} (h : ruleOf first = none) (rest : List Target)
    (name : String) : findRule (first :: rest) name = findRule rest name := by
  rw [findRule, List.filterMap_cons_none h, findRule]

theorem findRule_eq_none_of_not_mem {targets : List Target} {name : String}
    (h : name ∉ names targets) : findRule targets name = none := by
  rw [findRule, List.find?_eq_none]
  intro rule hrule hname
  obtain ⟨target, hmem, htarget⟩ := List.mem_filterMap.mp hrule
  refine h (List.mem_filterMap.mpr ⟨target, hmem, ?_⟩)
  rw [targetName_of_ruleOf htarget, of_decide_eq_true hname]

namespace Intake

/-- The rule part of one record. -/
theorem add_of_ruleOf_none (intake : Intake D) {target : Target} (h : ruleOf target = none) :
    (intake.add target).rules = intake.rules ∧ (intake.add target).nodes = intake.nodes ∧
      (intake.add target).prepared = intake.prepared ∧
      (intake.add target).decodedRules = intake.decodedRules := by
  cases htype : target.type <;> simp only [add, htype]
  · have hrule : target.rule = none := by simpa [ruleOf, htype] using h
    simp [hrule]
  · cases target.sourceFile <;> simp [addSource]
  · cases target.generatedFile <;> simp [addGenerated]
  · simp
  · simp

theorem add_of_ruleOf_some (intake : Intake D) {target : Target} {rule : Rule}
    (h : ruleOf target = some rule) : intake.add target = intake.addRule rule := by
  obtain ⟨htype, hrule⟩ : target.type = .rule ∧ target.rule = some rule := by
    simpa [ruleOf] using h
  simp [add, htype, hrule]

/-- The targets a query result is hashed as, in query order. -/
theorem hashTargets_foldl (targets : List Target) (intake : Intake D) :
    (targets.foldl Intake.add intake).hashTargets =
      intake.hashTargets ++ targets.filterMap hashTargetOf := by
  induction targets generalizing intake with
  | nil => simp
  | cons first rest ih =>
      have hadd : (intake.add first).hashTargets =
          intake.hashTargets ++ (hashTargetOf first).toList := by
        cases htype : first.type <;> simp only [add, hashTargetOf, htype]
        · cases first.rule with
          | none => simp
          | some rule =>
              simp only [Option.map_some, Option.getD_some, addRule, Option.toList_some]
              split <;> rfl
        · cases first.sourceFile <;> simp [addSource]
        · cases first.generatedFile <;> simp [addGenerated]
        · simp
        · simp
      rw [List.foldl_cons, ih, hadd, List.append_assoc]
      cases h : hashTargetOf first with
      | none => simp [List.filterMap_cons_none h]
      | some hashed => simp [List.filterMap_cons_some h]

theorem sourceTargets_foldl (targets : List Target) (intake : Intake D) :
    (targets.foldl Intake.add intake).sourceTargets =
      intake.sourceTargets ++ BazelDiff.sourceTargets targets := by
  induction targets generalizing intake with
  | nil => simp [BazelDiff.sourceTargets]
  | cons first rest ih =>
      have hadd : (intake.add first).sourceTargets = intake.sourceTargets ++
          (sourceOf first).toList.map fun source => ⟨source.name, source.subinclude⟩ := by
        cases htype : first.type <;> simp only [add, sourceOf, htype]
        · cases first.rule with
          | none => simp
          | some rule =>
              simp only [Option.map_some, Option.getD_some, addRule]
              split <;> simp
        · cases first.sourceFile <;> simp [addSource]
        · cases first.generatedFile <;> simp [addGenerated]
        · simp
        · simp
      rw [List.foldl_cons, ih, hadd, List.append_assoc, BazelDiff.sourceTargets,
        BazelDiff.sourceTargets]
      cases h : sourceOf first with
      | none => simp [List.filterMap_cons_none h]
      | some source => simp [List.filterMap_cons_some h]

theorem recorder_foldl (targets : List Target) (intake : Intake D) :
    (targets.foldl Intake.add intake).recorder = intake.recorder.map fun recorder =>
      (targets.filterMap sourceOf).foldl
        (fun recorder source => recorder.recordSource source.name source.subinclude) recorder := by
  induction targets generalizing intake with
  | nil => simp
  | cons first rest ih =>
      have hadd : (intake.add first).recorder = intake.recorder.map fun recorder =>
          ((sourceOf first).map fun source =>
            recorder.recordSource source.name source.subinclude).getD recorder := by
        cases htype : first.type <;> simp only [add, sourceOf, htype]
        · cases first.rule with
          | none => simp
          | some rule =>
              simp only [Option.map_some, Option.getD_some, addRule]
              split <;> simp
        · cases first.sourceFile <;> simp [addSource]
        · cases first.generatedFile <;> simp [addGenerated]
        · simp
        · simp
      rw [List.foldl_cons, ih, hadd, Option.map_map]
      cases h : sourceOf first with
      | none => simp [List.filterMap_cons_none h, Function.comp_def]
      | some source => simp [List.filterMap_cons_some h, Function.comp_def]

/-- The prepared digest of the rule of a name, when the records hold one. -/
def preparedOf (intake : Intake D) (targets : List Target) (name : String) :
    Option (RuleNode D) := do
  let rule ← findRule targets name
  let prepared ← intake.prepared.find name
  return { rule := rule, prepared := prepared }

theorem preparedOf_cons_none (intake : Intake D) {first : Target} (h : ruleOf first = none)
    (rest : List Target) (name : String) :
    preparedOf intake (first :: rest) name = preparedOf (intake.add first) rest name := by
  rw [preparedOf, preparedOf, findRule_cons_none h, (intake.add_of_ruleOf_none h).2.2.1]

/-- Taking one rule's prepared digest leaves those of other names. -/
theorem prepared_addRule (intake : Intake D) (rule : Rule) {name : String}
    (h : rule.name ≠ name) :
    (intake.addRule rule).prepared.find name = intake.prepared.find name := by
  rw [addRule]
  dsimp only
  cases intake.prepared.find rule.name with
  | none => rfl
  | some prepared => exact intake.prepared.find_update_of_ne h _

/-- With distinct names, every rule takes its own prepared digest, and the rules without one
are decoded later. -/
theorem graph_foldl {targets : List Target} (hnodup : (names targets).Nodup)
    (intake : Intake D) :
    (∀ name, (targets.foldl Intake.add intake).nodes[name]? =
      (preparedOf intake targets name).or intake.nodes[name]?) ∧
    (∀ name, (targets.foldl Intake.add intake).rules.find name =
      if (preparedOf intake targets name).isSome then
        { intake.rules.find name with rule := some name }
      else intake.rules.find name) ∧
    (targets.foldl Intake.add intake).decodedRules = intake.decodedRules ++
      (targets.filterMap ruleOf).filter fun rule => (intake.prepared.find rule.name).isNone := by
  induction targets generalizing intake with
  | nil => simp [preparedOf, findRule]
  | cons first rest ih =>
      obtain ⟨hrest, hfresh⟩ := names_cons_nodup hnodup
      obtain ⟨hnodes, hrules, hdecoded⟩ := ih hrest (intake.add first)
      cases hrule : ruleOf first with
      | none =>
          obtain ⟨hr, hn, hp, hd⟩ := intake.add_of_ruleOf_none hrule
          rw [List.foldl_cons, List.filterMap_cons_none hrule, hdecoded, hp, hd]
          refine ⟨fun name => ?_, fun name => ?_, rfl⟩
          · rw [hnodes, preparedOf_cons_none intake hrule, hn]
          · rw [hrules, preparedOf_cons_none intake hrule, hr]
      | some rule =>
          have hnotin : findRule rest rule.name = none :=
            findRule_eq_none_of_not_mem (hfresh _ (targetName_of_ruleOf hrule))
          rw [List.foldl_cons, List.filterMap_cons_some hrule, hdecoded]
          rw [intake.add_of_ruleOf_some hrule] at hnodes hrules ⊢
          have hother : ∀ name, rule.name ≠ name →
              preparedOf (intake.addRule rule) rest name = preparedOf intake (first :: rest) name := by
            intro name hname
            rw [preparedOf, preparedOf, findRule_cons_some hrule, if_neg hname,
              intake.prepared_addRule rule hname]
          have hself : preparedOf (intake.addRule rule) rest rule.name = none := by
            simp [preparedOf, hnotin]
          have hfilter : ((rest.filterMap ruleOf).filter fun other =>
              ((intake.addRule rule).prepared.find other.name).isNone) =
              (rest.filterMap ruleOf).filter fun other =>
                (intake.prepared.find other.name).isNone := by
            refine List.filter_congr fun other hother => ?_
            obtain ⟨target, hmem, htarget⟩ := List.mem_filterMap.mp hother
            rw [intake.prepared_addRule rule fun hname => ?_]
            exact hfresh _ (targetName_of_ruleOf hrule)
              (List.mem_filterMap.mpr ⟨target, hmem, hname ▸ targetName_of_ruleOf htarget⟩)
          rw [hfilter]
          have hfirst : preparedOf intake (first :: rest) rule.name =
              (intake.prepared.find rule.name).map fun prepared =>
                { rule := rule, prepared := prepared } := by
            rw [preparedOf, findRule_cons_some hrule, if_pos rfl]
            cases intake.prepared.find rule.name <;> rfl
          cases hprepared : intake.prepared.find rule.name with
          | none =>
              have hadd : (intake.addRule rule).nodes = intake.nodes ∧
                  (intake.addRule rule).rules = intake.rules ∧
                  (intake.addRule rule).decodedRules = intake.decodedRules ++ [rule] := by
                simp [addRule, hprepared]
              rw [hprepared, Option.map_none] at hfirst
              refine ⟨fun name => ?_, fun name => ?_, by simp [hadd.2.2, hprepared]⟩
              · rw [hnodes, hadd.1]
                by_cases hname : rule.name = name
                · rw [← hname, hself, hfirst]
                · rw [hother name hname]
              · rw [hrules, hadd.2.1]
                by_cases hname : rule.name = name
                · rw [← hname, hself, hfirst]
                · rw [hother name hname]
          | some prepared =>
              have hadd : (intake.addRule rule).nodes =
                    intake.nodes.insert rule.name { rule := rule, prepared := prepared } ∧
                  (intake.addRule rule).rules = intake.rules.update rule.name
                    (fun slot => { slot with rule := some rule.name }) ∧
                  (intake.addRule rule).decodedRules = intake.decodedRules := by
                simp [addRule, hprepared]
              rw [hprepared, Option.map_some] at hfirst
              refine ⟨fun name => ?_, fun name => ?_, by simp [hadd.2.2, hprepared]⟩
              · rw [hnodes, hadd.1]
                by_cases hname : rule.name = name
                · rw [← hname, hself, hfirst]
                  simp
                · rw [hother name hname]
                  simp [Std.ExtTreeMap.getElem?_insert, hname]
              · rw [hrules, hadd.2.1]
                by_cases hname : rule.name = name
                · rw [← hname, hself, hfirst]
                  simp
                · rw [hother name hname, SlotTable.find_update_of_ne _ hname]

end Intake

/-! ## The graph -/

/-- Distinct names stay distinct when only some records count. -/
theorem nodup_filterMap {α : Type} {part : Target → Option α} {name : α → String}
    (hpart : ∀ target a, part target = some a → targetName target = some (name a))
    {targets : List Target} (hnodup : (names targets).Nodup) :
    ((targets.filterMap part).map name).Nodup := by
  induction targets with
  | nil => simp
  | cons first rest ih =>
      obtain ⟨hrest, hfresh⟩ := names_cons_nodup hnodup
      cases hfirst : part first with
      | none =>
          rw [List.filterMap_cons_none hfirst]
          exact ih hrest
      | some a =>
          rw [List.filterMap_cons_some hfirst, List.map_cons, List.nodup_cons]
          refine ⟨fun hmem => ?_, ih hrest⟩
          obtain ⟨b, hb, hname⟩ := List.mem_map.mp hmem
          obtain ⟨target, htarget, hpb⟩ := List.mem_filterMap.mp hb
          exact hfresh _ (hpart first a hfirst)
            (List.mem_filterMap.mpr ⟨target, htarget, hname ▸ hpart target b hpb⟩)

variable [HashFunction D]

/-- The node of a rule that was not prehashed. -/
def decodedNode (environment : Environment D) (options : HashOptions) (rule : Rule) :
    RuleNode D where
  rule := rule
  prepared :=
    { definitionDigest := ruleDefinitionDigest environment.encode rule options.ignoredAttributes
      loadingInputs := partialLoadingInputs options (environment.workspace options) rule }

namespace Graph

omit [HashFunction D] in
theorem foldl_addSource (sources : List (String × D)) (graph : Graph D)
    (hnodup : (sources.map (·.1)).Nodup) :
    (sources.foldl (fun graph source => graph.addSource source.1 source.2) graph).nodes =
      graph.nodes ∧
    ∀ name, (sources.foldl (fun graph source => graph.addSource source.1 source.2)
        graph).rules.find name =
      match sources.find? (·.1 = name) with
      | some source => { graph.rules.find name with source := some source.2 }
      | none => graph.rules.find name := by
  induction sources generalizing graph with
  | nil => simp
  | cons first rest ih =>
      obtain ⟨hfresh, hrest⟩ := List.nodup_cons.mp (List.map_cons ▸ hnodup)
      obtain ⟨hnodes, hfind⟩ := ih (graph.addSource first.1 first.2) hrest
      refine ⟨hnodes, fun name => ?_⟩
      rw [List.foldl_cons, hfind, List.find?_cons]
      by_cases hname : first.1 = name
      · have hnone : rest.find? (·.1 = name) = none := by
          rw [List.find?_eq_none]
          intro source hsource hname'
          refine hfresh (List.mem_map.mpr ⟨source, hsource, ?_⟩)
          rw [hname, of_decide_eq_true hname']
        simp [hnone, hname, addSource]
      · simp [hname, addSource, SlotTable.find_update_of_ne]

theorem foldl_addDecoded (environment : Environment D) (options : HashOptions)
    (decoded : List Rule) (graph : Graph D) (hnodup : (decoded.map (·.name)).Nodup) :
    (∀ name, (decoded.foldl (·.addDecoded environment options) graph).nodes[name]? =
      ((decoded.find? (·.name = name)).map (decodedNode environment options)).or
        graph.nodes[name]?) ∧
    ∀ name, (decoded.foldl (·.addDecoded environment options) graph).rules.find name =
      if (decoded.find? (·.name = name)).isSome then
        { graph.rules.find name with rule := some name }
      else graph.rules.find name := by
  induction decoded generalizing graph with
  | nil => simp
  | cons first rest ih =>
      obtain ⟨hfresh, hrest⟩ := List.nodup_cons.mp (List.map_cons ▸ hnodup)
      obtain ⟨hnodes, hfind⟩ := ih (graph.addDecoded environment options first) hrest
      have hnone : rest.find? (·.name = first.name) = none := by
        rw [List.find?_eq_none]
        intro rule hrule hname
        exact hfresh (List.mem_map.mpr ⟨rule, hrule, of_decide_eq_true hname⟩)
      refine ⟨fun name => ?_, fun name => ?_⟩
      · rw [List.foldl_cons, hnodes, List.find?_cons]
        by_cases hname : first.name = name
        · subst hname
          simp [hnone, addDecoded, decodedNode]
        · simp [hname, addDecoded, Std.ExtTreeMap.getElem?_insert]
      · rw [List.foldl_cons, hfind, List.find?_cons]
        by_cases hname : first.name = name
        · subst hname
          simp [hnone, addDecoded]
        · simp [hname, addDecoded, SlotTable.find_update_of_ne]

end Graph

/-- The node of a rule: with its prepared digest when there is one. -/
def nodeOf (definitionDigests : PreparedRules D) (environment : Environment D)
    (options : HashOptions) (rule : Rule) : RuleNode D :=
  match definitionDigests.find rule.name with
  | some prepared => { rule := rule, prepared := prepared }
  | none => decodedNode environment options rule

/-- The slot of a label in the graph of a query result. -/
def slotOf (targets : List Target) (sources : List (String × D)) (name : String) :
    LabelSlot D where
  rule := (findRule targets name).map fun _ => name
  source := (sources.find? (·.1 = name)).map (·.2)

/-- The graph of a query result with distinct names. -/
theorem graph_takeIn {targets : List Target} (hnodup : (names targets).Nodup)
    (definitionDigests : PreparedRules D) (recorder : Option RecipeRecorder)
    (environment : Environment D) (options : HashOptions) {sources : List (String × D)}
    (hsources : (sources.map (·.1)).Nodup) :
    (∀ name, ((takeIn targets definitionDigests recorder).graph environment options
        sources).nodes[name]? =
      (findRule targets name).map (nodeOf definitionDigests environment options)) ∧
    ∀ name, ((takeIn targets definitionDigests recorder).graph environment options
        sources).rules.find name = slotOf targets sources name := by
  obtain ⟨hnodes, hrules, hdecoded⟩ := Intake.graph_foldl hnodup
    { rules := definitionDigests.fill default, prepared := definitionDigests, recorder := recorder }
  have hfound : ∀ name, ((takeIn targets definitionDigests recorder).decodedRules.find?
      (·.name = name)) =
      if (definitionDigests.find name).isNone then findRule targets name else none := by
    intro name
    have hpred : ∀ rule : Rule,
        ((definitionDigests.find rule.name).isNone && decide (rule.name = name)) =
          ((definitionDigests.find name).isNone && decide (rule.name = name)) := by
      intro rule
      by_cases hname : rule.name = name <;> simp [hname]
    rw [takeIn, hdecoded, List.nil_append, List.find?_filter]
    simp only [Bool.decide_and, Bool.decide_eq_true, hpred]
    by_cases hnone : (definitionDigests.find name).isNone = true
    · simp only [hnone, Bool.true_and, if_true]
      rfl
    · rw [if_neg hnone, List.find?_eq_none]
      intro rule _
      simp [hnone]
  have hdecodedNodup : ((takeIn targets definitionDigests recorder).decodedRules.map
      (·.name)).Nodup := by
    rw [takeIn, hdecoded, List.nil_append]
    exact (nodup_filterMap (fun _ _ => targetName_of_ruleOf) hnodup).sublist
      (List.filter_sublist.map _)
  obtain ⟨hsourceNodes, hsourceFind⟩ := Graph.foldl_addSource sources
    { rules := (takeIn targets definitionDigests recorder).rules
      nodes := (takeIn targets definitionDigests recorder).nodes } hsources
  obtain ⟨hgraphNodes, hgraphFind⟩ := Graph.foldl_addDecoded environment options
    (takeIn targets definitionDigests recorder).decodedRules _ hdecodedNodup
  refine ⟨fun name => ?_, fun name => ?_⟩
  · rw [Intake.graph, hgraphNodes, hsourceNodes, hfound, takeIn, hnodes, Intake.preparedOf]
    cases hrule : findRule targets name with
    | none => simp
    | some rule =>
        have hname : rule.name = name := findRule_name hrule
        cases hprepared : definitionDigests.find name with
        | none => simp [nodeOf, hname, hprepared]
        | some prepared => simp [nodeOf, hname, hprepared]
  · rw [Intake.graph, hgraphFind, hsourceFind, hfound, takeIn, hrules, Intake.preparedOf, slotOf]
    have hdefault : SlotTable.find (SlotTable.fill definitionDigests (default : LabelSlot D)) name =
        { rule := none, source := none, replacedCanonical := none } := SlotTable.find_fill _ _
    cases hrule : findRule targets name with
    | none =>
        cases sources.find? (·.1 = name) with
        | none => simp [hdefault]
        | some source => simp [hdefault]
    | some rule =>
        cases hprepared : definitionDigests.find name with
        | none =>
            cases sources.find? (·.1 = name) with
            | none => simp [hdefault]
            | some source => simp [hdefault]
        | some prepared =>
            cases sources.find? (·.1 = name) with
            | none => simp [hdefault]
            | some source => simp [hdefault]

end BazelDiff
