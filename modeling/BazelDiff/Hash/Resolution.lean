/-
# The table of labels, read by name

The traversal reads slots by position when it has one and by name otherwise, and it
tells an absent slot from an empty one nowhere. Both facts are settled here once, so
that everything later is about the view of the table by name.
-/

import BazelDiff.Hash.Traversal

namespace BazelDiff

open Text HashFunction

variable {D : Type}

namespace HashState

/-- The index of configured keys, built or not. -/
def instances (state : HashState D) : StringMap (List String) :=
  state.labelInstances.getD (configuredLabelInstances state.rules.ruleKeys)

@[simp]
theorem resolving_default (state : HashState D) (key : String) :
    state.resolving key default = none := rfl

@[simp]
theorem completed_default (state : HashState D) (key : String) :
    state.completed default key = none := rfl

@[simp]
theorem slot_source_default : (default : LabelSlot D).source = none := rfl

@[simp]
theorem slot_rule_default : (default : LabelSlot D).rule = none := rfl

@[simp]
theorem indexLabels_snd (state : HashState D) : state.indexLabels.2 = state.instances := rfl

@[simp]
theorem indexLabels_rules (state : HashState D) : state.indexLabels.1.rules = state.rules := rfl

@[simp]
theorem resolving_indexLabels (state : HashState D) :
    state.indexLabels.1.resolving = state.resolving := rfl

/-- Resolution by name alone. -/
def resolveByName (state : HashState D) (encodedInput inputLabel : String)
    (path : List String) : Option (Input D) :=
  match (state.rules.find inputLabel).source with
  | some d => some (.source d)
  | none =>
      let exact :=
        if encodedInput = inputLabel then none
        else state.resolving encodedInput (state.rules.find encodedInput)
      match exact.or (state.resolving inputLabel (state.rules.find inputLabel)) with
      | some input => some input
      | none =>
          match (state.instances[inputLabel]?).bind (·.head?) with
          | none => none
          | some fallback =>
              if fallback ∈ path then none
              else state.resolving fallback (state.rules.find fallback)

theorem inputLabelSlot_bind {α : Type} (state : HashState D) {inputLabel : String}
    {inputSlot : Option Nat}
    (hslot : ∀ id, inputSlot = some id → state.rules.ids[inputLabel]? = some id)
    {f : LabelSlot D → Option α} (hf : f default = none) :
    (state.inputLabelSlot inputLabel inputSlot).bind f = f (state.rules.find inputLabel) := by
  cases inputSlot with
  | none => exact state.rules.bind_get inputLabel hf
  | some id =>
      rw [inputLabelSlot, state.rules.slot_eq_find (hslot id rfl), Option.bind_some]

/-- A position that belongs to the input's label says nothing its name does not say. -/
theorem resolveInput_eq (state : HashState D) (encodedInput : String) {inputLabel : String}
    {inputSlot : Option Nat} (path : List String)
    (hslot : ∀ id, inputSlot = some id → state.rules.ids[inputLabel]? = some id) :
    ∃ index, state.resolveInput encodedInput inputLabel inputSlot path =
      ({ state with labelInstances := index },
        state.resolveByName encodedInput inputLabel path) ∧
      (index = state.labelInstances ∨ index = some state.instances) := by
  have hexact : (state.rules.get encodedInput).bind (state.resolving encodedInput) =
      state.resolving encodedInput (state.rules.find encodedInput) :=
    state.rules.bind_get encodedInput (state.resolving_default encodedInput)
  rw [resolveInput, resolveByName]
  simp only [state.inputLabelSlot_bind hslot slot_source_default,
    state.inputLabelSlot_bind hslot (state.resolving_default inputLabel), hexact]
  cases (state.rules.find inputLabel).source with
  | some d => exact ⟨state.labelInstances, rfl, Or.inl rfl⟩
  | none =>
      dsimp only
      cases (if encodedInput = inputLabel then none
          else state.resolving encodedInput (state.rules.find encodedInput)).or
          (state.resolving inputLabel (state.rules.find inputLabel)) with
      | some input => exact ⟨state.labelInstances, rfl, Or.inl rfl⟩
      | none =>
          refine ⟨some state.instances, ?_, Or.inr rfl⟩
          dsimp only
          rw [indexLabels_snd]
          cases (state.instances[inputLabel]?).bind (·.head?) with
          | none => rfl
          | some fallback =>
              dsimp only
              split_ifs
              · rfl
              · rw [indexLabels_rules, resolving_indexLabels,
                  state.rules.bind_get fallback (state.resolving_default fallback)]
                rfl

theorem find_setSource (state : HashState D) (label key : String) (d : D) :
    (state.setSource label d).rules.find key =
      if label = key then { state.rules.find label with source := some d }
      else state.rules.find key :=
  state.rules.find_update label key _

/-- A new source is not a new rule. -/
theorem rule_setSource (state : HashState D) (label key : String) (d : D) :
    ((state.setSource label d).rules.find key).rule = (state.rules.find key).rule := by
  rw [find_setSource]
  split_ifs with h
  · rw [h]
  · rfl

theorem instances_setSource (state : HashState D) (label : String) (d : D) :
    (state.setSource label d).instances = state.instances := by
  have hkeys : (state.setSource label d).rules.ruleKeys = state.rules.ruleKeys :=
    SlotTable.keysWith_congr rfl rfl fun key => by rw [rule_setSource]
  rw [instances, instances, hkeys]
  rfl

end HashState

namespace HashContext

/-- The positions a node keeps belong to the labels of its inputs. -/
def PositionsOk (context : HashContext D) (state : HashState D) : Prop :=
  ∀ ⦃name : String⦄ ⦃node : RuleNode D⦄ ⦃ids : List (Option Nat)⦄,
    context.nodes[name]? = some node → node.inputPositions = some ids →
    ∀ ⦃i id : Nat⦄, ids[i]? = some (some id) →
      ∃ input, node.rule.ruleInput[i]? = some input ∧
        state.rules.ids[targetLabel input]? = some id

variable {context : HashContext D}

theorem PositionsOk.setSource {state : HashState D} (h : context.PositionsOk state)
    (label : String) (d : D) : context.PositionsOk (state.setSource label d) := by
  intro name node ids hnode hids i id hid
  obtain ⟨input, hinput, hslot⟩ := h hnode hids hid
  exact ⟨input, hinput, state.rules.ids_update hslot label _⟩

/-- The slot of an input that a node keeps a position for. -/
theorem PositionsOk.input {state : HashState D} (h : context.PositionsOk state) {name : String}
    {node : RuleNode D} (hnode : context.nodes[name]? = some node) {more : List String}
    {input : String × Nat} (hinput : input ∈ (context.inputsOf node ++ more).zipIdx) {id : Nat}
    (hid : (node.inputPositions.bind fun ids => (ids[input.2]?).getD none) = some id) :
    state.rules.ids[targetLabel input.1]? = some id := by
  cases hpositions : node.inputPositions with
  | none => simp [hpositions] at hid
  | some ids =>
      have hat : ids[input.2]? = some (some id) := by
        rw [hpositions, Option.bind_some] at hid
        cases hcell : ids[input.2]? with
        | none => simp [hcell] at hid
        | some cell => simpa [hcell] using hid
      obtain ⟨found, hfound, hslot⟩ := h hnode hpositions hat
      have hinputs : context.inputsOf node = node.rule.ruleInput := by
        simp [inputsOf, hpositions]
      have hsame : found = input.1 := by
        have hget := (List.mem_zipIdx_iff_getElem?).mp hinput
        rw [hinputs, List.getElem?_append_left (List.getElem?_eq_some_iff.mp hfound).1,
          hfound] at hget
        exact Option.some.inj hget
      rwa [← hsame]

theorem extensionView_eq (state : HashState D) (extension : Option String) (input : String) :
    extensionView state extension input = (do
      let extension ← extension
      let node ← stripPrefix "//external:" input
      let view := "//external:" ++ extensionViewNode node extension
      if (state.rules.find view).rule.isSome then some view else none) := by
  simp only [extensionView, state.rules.bind_get _ HashState.slot_rule_default]

/-- The completed digest of a shared input that is no source. -/
def sharedDigest (state : HashState D) (label : String) : Option (TargetDigest D) :=
  if (state.rules.find label).source.isNone then state.completed (state.rules.find label) label
  else none

variable [HashFunction D]

theorem sharedDigests_eq (state : HashState D) (labels : List String) :
    sharedDigests state labels =
      (labels.mapM (sharedDigest state)).map fun digests =>
        (labels.flatMap utf8, digests.flatMap fun d => bytes d.overall) := by
  have hone : ∀ label, (((state.rules.get label).filter (·.source.isNone)).bind
      fun slot => state.completed slot label) = sharedDigest state label := by
    intro label
    have hfilter : (((state.rules.get label).filter (·.source.isNone)).bind
        fun slot => state.completed slot label) = (state.rules.get label).bind fun slot =>
          if slot.source.isNone then state.completed slot label else none := by
      cases state.rules.get label with
      | none => rfl
      | some slot =>
          rw [Option.filter, Option.bind_some]
          split_ifs <;> rfl
    rw [hfilter, state.rules.bind_get label (by simp), sharedDigest]
  simp only [sharedDigests, bind, hone]
  cases labels.mapM (sharedDigest state) with
  | none => rfl
  | some digests => rfl

/-- The package group a visibility label stands for. -/
def groupOf (context : HashContext D) (state : HashState D) (packageGroup : String) :
    Option String :=
  (state.rules.find packageGroup).rule.filter fun group =>
    (context.nodes[group]?).any fun node => node.rule.ruleClass = "package_group"

theorem visibilityStep_eq (visit : Visit D) (canonicalKey : String) (path : List String)
    (state : HashState D) (builder : TargetDigestBuilder) (packageGroup : String) :
    context.visibilityStep visit canonicalKey path (state, builder) packageGroup =
      if packageGroup = targetLabel canonicalKey then .ok (state, builder)
      else
        match context.groupOf state packageGroup with
        | none => .ok (state, builder)
        | some group => do
            let (state', d) ← visitOverall visit path state group
              ((state.completed (state.rules.find packageGroup) packageGroup).map (·.overall))
            return (state', (builder.direct (utf8 packageGroup)).transitive packageGroup
              packageGroup d) := by
  rw [visibilityStep, groupOf]
  dsimp only
  split_ifs with hself
  · rfl
  · cases hslot : state.rules.get packageGroup with
    | none =>
        rw [SlotTable.find, hslot]
        rfl
    | some slot =>
        have hfind : state.rules.find packageGroup = slot := by rw [SlotTable.find, hslot]; rfl
        rw [hfind]
        dsimp only
        cases slot.rule with
        | none => rfl
        | some group =>
            cases hnode : context.nodes[group]? with
            | none =>
                simp only [Option.filter, hnode, Option.all_none, Option.any_none]
                rfl
            | some node =>
                by_cases hclass : node.rule.ruleClass = "package_group"
                · simp [Option.filter, hnode, hclass]
                · simp [Option.filter, hnode, hclass, pure, Except.pure]

theorem ruleDigest_eq (state : HashState D) (key : String) :
    context.ruleDigest state key =
      match state.prior (state.rules.find key) with
      | some d => .ok (state, d)
      | none =>
          okOr ("Unable to find rule " ++ key) (state.rules.find key).rule >>= fun node =>
            context.nodeDigest context.depth node [] state := by
  rw [ruleDigest]
  cases hslot : state.rules.get key with
  | none =>
      rw [SlotTable.find, hslot]
      rfl
  | some slot =>
      have hfind : state.rules.find key = slot := by rw [SlotTable.find, hslot]; rfl
      rw [hfind]
      rfl

end HashContext

end BazelDiff
