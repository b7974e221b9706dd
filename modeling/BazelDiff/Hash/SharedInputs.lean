/-
# Shared inputs

The hubs of a module extension share one list of inputs. When all of them are finished
rules their digests are fed as one, from a cache that the first such hub fills; else the
hub goes through them one by one. A run over the same nodes with the shared lists written
out in each hub goes through them one by one every time. The two runs agree as long as no
shared input has been given a source by the time it is fed as one.
-/

import BazelDiff.Hash.Promotion

namespace BazelDiff

open Text HashFunction Outcome

variable {D : Type}

/-! ## States without the cache -/

/-- The state of a run that shares no inputs. -/
def HashState.uncached (state : HashState D) : HashState D :=
  { state with repositoryInputDigests := ∅ }

/-- The second run has the state of the first without its cache, and the same result. -/
def Uncaches {α : Type} (a b : HashState D × α) : Prop :=
  b = (a.1.uncached, a.2)

theorem HashState.resolveInput_uncached (state : HashState D) (encodedInput inputLabel : String)
    (inputSlot : Option Nat) (path : List String) :
    state.uncached.resolveInput encodedInput inputLabel inputSlot path =
      ((state.resolveInput encodedInput inputLabel inputSlot path).1.uncached,
        (state.resolveInput encodedInput inputLabel inputSlot path).2) := by
  rw [resolveInput, resolveInput]
  dsimp only
  have hslot : state.uncached.inputLabelSlot inputLabel inputSlot =
      state.inputLabelSlot inputLabel inputSlot := rfl
  rw [hslot]
  cases (state.inputLabelSlot inputLabel inputSlot).bind (·.source) with
  | some d => rfl
  | none =>
      dsimp only
      have hexact : (if encodedInput = inputLabel then none
          else (state.uncached.rules.get encodedInput).bind
            (state.uncached.resolving encodedInput)) =
          if encodedInput = inputLabel then none
          else (state.rules.get encodedInput).bind (state.resolving encodedInput) := rfl
      have hbare : state.uncached.resolving inputLabel = state.resolving inputLabel := rfl
      rw [hexact, hbare]
      cases (if encodedInput = inputLabel then none
          else (state.rules.get encodedInput).bind (state.resolving encodedInput)).or
          ((state.inputLabelSlot inputLabel inputSlot).bind (state.resolving inputLabel)) with
      | some input => rfl
      | none =>
          dsimp only
          have hindex : state.uncached.indexLabels.2 = state.indexLabels.2 := rfl
          rw [hindex]
          cases (state.indexLabels.2[inputLabel]?).bind (·.head?) with
          | none => rfl
          | some fallback =>
              dsimp only
              split_ifs <;> rfl

/-- A position that belongs to the input's label can be left out. -/
theorem HashState.resolveInput_slot (state : HashState D) (encodedInput : String)
    {inputLabel : String} {inputSlot : Option Nat} (path : List String)
    (hslot : ∀ id, inputSlot = some id → state.rules.ids[inputLabel]? = some id) :
    state.resolveInput encodedInput inputLabel inputSlot path =
      state.resolveInput encodedInput inputLabel none path := by
  have hnone : ∀ id, (none : Option Nat) = some id → state.rules.ids[inputLabel]? = some id :=
    nofun
  rw [resolveInput, resolveInput]
  simp only [state.inputLabelSlot_bind hslot slot_source_default,
    state.inputLabelSlot_bind hslot (state.resolving_default inputLabel),
    state.inputLabelSlot_bind hnone slot_source_default,
    state.inputLabelSlot_bind hnone (state.resolving_default inputLabel)]

variable [HashFunction D]

/-! ## Nodes with the shared inputs written out -/

/-- The context with other nodes. -/
def HashContext.withNodes (context : HashContext D) (nodes : StringMap (RuleNode D)) :
    HashContext D :=
  { context with nodes := nodes }

/-- The second node has all inputs of the first as its own. -/
structure NodeUnshared (context : HashContext D) (node node' : RuleNode D) : Prop where
  name : node'.rule.name = node.rule.name
  ruleClass : node'.rule.ruleClass = node.rule.ruleClass
  definition : node'.prepared.definitionDigest = node.prepared.definitionDigest
  stack : node'.rule.instantiationStack = node.rule.instantiationStack
  affected : context.isAlwaysAffected node'.rule = context.isAlwaysAffected node.rule
  visibility : context.visibilityOf node'.rule = context.visibilityOf node.rule
  unshared : node'.prepared.sharedInputs = none
  inputs : context.inputsOf node' = context.allInputs node
  /-- A hub has no inputs but the shared ones, goes through no views, and is none of them. -/
  hub : ∀ group, node.prepared.sharedInputs = some group →
    context.inputsOf node = [] ∧ context.extensionOf node.rule = none ∧
      node.rule.name ∉ group.labels

/-- The nodes of a run and the same nodes with the shared inputs written out. -/
structure Unshares (context : HashContext D) (nodes' : StringMap (RuleNode D)) : Prop where
  keyed : KeyedNodes context.nodes
  nodes : Pointwise (NodeUnshared context) context.nodes nodes'
  groups : ∀ {name name' : String} {node node' : RuleNode D} {group group' : RepositoryInputGroup},
    context.nodes[name]? = some node → context.nodes[name']? = some node' →
    node.prepared.sharedInputs = some group → node'.prepared.sharedInputs = some group' →
    group.extension = group'.extension → group.labels = group'.labels

/-! ## What the cache holds -/

/-- What is fed as one for the labels of finished rules. -/
def FedFrom (state : HashState D) (labels : List String) (entry : List UInt8 × List UInt8) : Prop :=
  ∃ digests : List (TargetDigest D),
    List.Forall₂ (fun label d => (state.rules.find label).rule = some label ∧
      state.digests[label]? = some d) labels digests ∧
    entry = (labels.flatMap utf8, digests.flatMap fun d => bytes d.overall)

/-- Finished rules stay as they are. -/
theorem FedFrom.mono {state state' : HashState D} {labels : List String}
    {entry : List UInt8 × List UInt8} (h : FedFrom state labels entry)
    (hrules : ∀ key, (state'.rules.find key).rule = (state.rules.find key).rule)
    (hdigests : ∀ (name : String) d, state.digests[name]? = some d →
      state'.digests[name]? = some d) :
    FedFrom state' labels entry := by
  obtain ⟨digests, hall, heq⟩ := h
  refine ⟨digests, hall.imp fun label d hlabel => ⟨?_, hdigests label d hlabel.2⟩, heq⟩
  rw [hrules]
  exact hlabel.1

/-- Digests that are at hand are those of finished rules. -/
theorem fedFrom_of_sharedDigests {state : HashState D}
    (hreplaced : ∀ key, (state.rules.find key).replacedCanonical = none) {labels : List String}
    {entry : List UInt8 × List UInt8}
    (h : HashContext.sharedDigests state labels = some entry) : FedFrom state labels entry := by
  have hall : ∀ {labels : List String} {digests : List (TargetDigest D)},
      labels.mapM (HashContext.sharedDigest state) = some digests →
      List.Forall₂ (fun label d => (state.rules.find label).rule = some label ∧
        state.digests[label]? = some d) labels digests := by
    intro labels
    induction labels with
    | nil =>
        intro digests hdigests
        cases hdigests
        exact .nil
    | cons label rest ih =>
        intro digests hdigests
        rw [List.mapM_cons] at hdigests
        obtain ⟨d, hd, hdigests⟩ := Option.bind_eq_some_iff.mp hdigests
        obtain ⟨more, hmore, hdigests⟩ := Option.bind_eq_some_iff.mp hdigests
        cases hdigests
        refine .cons ?_ (ih hmore)
        rw [HashContext.sharedDigest] at hd
        split_ifs at hd
        rw [HashState.completed, hreplaced, Option.none_or] at hd
        obtain ⟨node, hnode, hcell⟩ := Option.bind_eq_some_iff.mp hd
        obtain ⟨hrule, hsame⟩ := Option.filter_eq_some_iff.mp hnode
        obtain rfl := of_decide_eq_true hsame
        exact ⟨hrule, hcell⟩
  rw [HashContext.sharedDigests_eq] at h
  obtain ⟨digests, hdigests, rfl⟩ := Option.map_eq_some_iff.mp h
  exact ⟨digests, hall hdigests, rfl⟩

/-- The state of a run that shares inputs, on a path. -/
structure SharingOk (context : HashContext D) (nodes' : StringMap (RuleNode D))
    (path : List String) (state : HashState D) : Prop where
  positions : context.PositionsOk state
  positions' : (context.withNodes nodes').PositionsOk state
  replaced : ∀ key, (state.rules.find key).replacedCanonical = none
  /-- The rules being hashed are unfinished. -/
  fresh : ∀ name ∈ path, state.digests[name]? = none
  cache : ∀ {name : String} {node : RuleNode D} {group : RepositoryInputGroup}
    {entry : List UInt8 × List UInt8}, context.nodes[name]? = some node →
    node.prepared.sharedInputs = some group →
    state.repositoryInputDigests[group.extension]? = some entry →
    FedFrom state group.labels entry

namespace SharingOk

variable {context : HashContext D} {nodes' : StringMap (RuleNode D)} {path : List String}
  {state : HashState D}

theorem of_same (h : SharingOk context nodes' path state) {state' : HashState D}
    (hrules : state'.rules = state.rules) (hdigests : state'.digests = state.digests)
    (hcache : state'.repositoryInputDigests = state.repositoryInputDigests) :
    SharingOk context nodes' path state' where
  positions name node ids hnode hids i id hid := by
    rw [hrules]
    exact h.positions hnode hids hid
  positions' name node ids hnode hids i id hid := by
    rw [hrules]
    exact h.positions' hnode hids hid
  replaced key := by
    rw [hrules]
    exact h.replaced key
  fresh name hname := by
    rw [hdigests]
    exact h.fresh name hname
  cache hnode hgroup hentry := by
    rw [hcache] at hentry
    exact (h.cache hnode hgroup hentry).mono (fun key => by rw [hrules])
      (fun name d hd => by rw [hdigests]; exact hd)

theorem setSource (h : SharingOk context nodes' path state) (label : String) (d : D) :
    SharingOk context nodes' path (state.setSource label d) where
  positions := h.positions.setSource label d
  positions' := h.positions'.setSource label d
  replaced key := by
    rw [HashState.find_setSource]
    split_ifs
    · exact h.replaced label
    · exact h.replaced key
  fresh := h.fresh
  cache hnode hgroup hentry :=
    (h.cache hnode hgroup hentry).mono (fun key => state.rule_setSource label key d)
      (fun _ _ hd => hd)

theorem push (h : SharingOk context nodes' path state) {name : String}
    (hname : state.digests[name]? = none) : SharingOk context nodes' (name :: path) state :=
  { h with
    fresh := fun other hother => by
      rcases List.mem_cons.mp hother with rfl | hother
      · exact hname
      · exact h.fresh other hother }

/-- A finished rule is none of those the cache has. -/
theorem finishNode {name : String} (h : SharingOk context nodes' (name :: path) state)
    (hpath : name ∉ path) (builder : TargetDigestBuilder) :
    SharingOk context nodes' path (HashContext.finishNode state name builder).1 where
  positions := h.positions
  positions' := h.positions'
  replaced := h.replaced
  fresh other hother := by
    have hne : name ≠ other := by
      rintro rfl
      exact hpath hother
    rw [HashContext.finishNode]
    dsimp only
    rw [Std.ExtTreeMap.getElem?_insert, if_neg (by simpa using hne)]
    exact h.fresh other (List.mem_cons_of_mem _ hother)
  cache hnode hgroup hentry := by
    refine (h.cache hnode hgroup hentry).mono (fun _ => rfl) fun other d hd => ?_
    have hne : name ≠ other := by
      rintro rfl
      rw [h.fresh name List.mem_cons_self] at hd
      cases hd
    rw [HashContext.finishNode]
    dsimp only
    rw [Std.ExtTreeMap.getElem?_insert, if_neg (by simpa using hne)]
    exact hd

/-- Inputs fed as one are finished rules, and so is what the cache gains. -/
theorem applyRepositoryInputs (hunshares : Unshares context nodes')
    (h : SharingOk context nodes' path state) {name : String} {node : RuleNode D}
    (hnode : context.nodes[name]? = some node) {group : RepositoryInputGroup}
    (hgroup : node.prepared.sharedInputs = some group) {builder : TargetDigestBuilder}
    {fed : HashState D × TargetDigestBuilder}
    (happly : HashContext.applyRepositoryInputs state group builder = some fed) :
    ∃ entry, FedFrom state group.labels entry ∧ fed.2 = builder.shared group.labels entry.1 entry.2 ∧
      fed.1.uncached = state.uncached ∧ SharingOk context nodes' path fed.1 := by
  obtain ⟨entry, hentry, happly⟩ := Option.bind_eq_some_iff.mp happly
  obtain rfl := Option.some.inj happly
  have hfed : FedFrom state group.labels entry := by
    rcases Option.or_eq_some_iff.mp hentry with hcached | ⟨-, hnow⟩
    · exact h.cache hnode hgroup hcached
    · exact fedFrom_of_sharedDigests h.replaced hnow
  refine ⟨entry, hfed, rfl, rfl, { h with cache := ?_ }⟩
  intro other otherNode otherGroup found hother hotherGroup hfound
  dsimp only at hfound
  rw [Std.ExtTreeMap.getElem?_insertIfNew] at hfound
  split_ifs at hfound with hnew
  · obtain rfl := Option.some.inj hfound
    have hextension := Std.LawfulEqOrd.eq_of_compare hnew.1
    rw [← hunshares.groups hnode hother hgroup hotherGroup hextension]
    exact hfed
  · exact h.cache hother hotherGroup hfound

end SharingOk

/-! ## The two runs, step by step -/

/-- The second run has the state of the first without its cache, which is a good one. -/
def Sim {α : Type} (context : HashContext D) (nodes' : StringMap (RuleNode D))
    (path : List String) (a b : HashState D × α) : Prop :=
  Uncaches a b ∧ SharingOk context nodes' path a.1

section Steps

variable {context : HashContext D} {nodes' : StringMap (RuleNode D)} {path : List String}

theorem bzlDigest_uncached (state : HashState D) (file : String) :
    Related (fun a b => Uncaches a b ∧ a.1.rules = state.rules ∧ a.1.digests = state.digests ∧
        a.1.repositoryInputDigests = state.repositoryInputDigests)
      (context.bzlDigest state file) (context.bzlDigest state.uncached file) := by
  rw [HashContext.bzlDigest, HashContext.bzlDigest]
  have hsame : state.uncached.bzlDigests = state.bzlDigests := rfl
  rw [hsame]
  cases state.bzlDigests[file]? with
  | some cached => exact .ok ⟨rfl, rfl, rfl, rfl⟩
  | none =>
      refine Related.bind (Related.refl (fun _ => rfl) _) fun d d' hd => ?_
      obtain rfl : d = d' := hd
      exact .ok ⟨rfl, rfl, rfl, rfl⟩

/-- What comes before the inputs is the same, and leaves the cache alone. -/
theorem startDigest_uncached {state : HashState D} {node node' : RuleNode D}
    (hnode : NodeUnshared context node node') :
    Related (fun a b => Uncaches a b ∧ a.1.rules = state.rules ∧ a.1.digests = state.digests ∧
        a.1.repositoryInputDigests = state.repositoryInputDigests)
      (context.startDigest state node)
      ((context.withNodes nodes').startDigest state.uncached node') := by
  have hseed : Related (fun a b => Uncaches a b ∧ a.1.rules = state.rules ∧
      a.1.digests = state.digests ∧ a.1.repositoryInputDigests = state.repositoryInputDigests)
      (context.ruleBzlSeed state node.rule)
      ((context.withNodes nodes').ruleBzlSeed state.uncached node'.rule) := by
    have hfiles : HashContext.stackFiles node'.rule = HashContext.stackFiles node.rule := by
      rw [HashContext.stackFiles, HashContext.stackFiles, hnode.stack]
    rw [HashContext.ruleBzlSeed, HashContext.ruleBzlSeed, hnode.stack, hfiles]
    split_ifs
    · exact .ok ⟨rfl, rfl, rfl, rfl⟩
    · refine Related.bind (R := fun a b => Uncaches a b ∧ a.1.rules = state.rules ∧
        a.1.digests = state.digests ∧
        a.1.repositoryInputDigests = state.repositoryInputDigests) ?_ ?_
      · refine Related.foldlM ?_ ⟨rfl, rfl, rfl, rfl⟩
        rintro file - ⟨s, fed⟩ b ⟨rfl, hrules, hdigests, hcache⟩
        refine Related.bind (bzlDigest_uncached s file) ?_
        rintro ⟨s', d⟩ b ⟨rfl, hrules', hdigests', hcache'⟩
        cases d with
        | none => exact .ok ⟨rfl, hrules'.trans hrules, hdigests'.trans hdigests,
            hcache'.trans hcache⟩
        | some d => exact .ok ⟨rfl, hrules'.trans hrules, hdigests'.trans hdigests,
            hcache'.trans hcache⟩
      · rintro ⟨s, fed⟩ b ⟨rfl, hkept⟩
        exact .ok ⟨rfl, hkept⟩
  rw [HashContext.startDigest, HashContext.startDigest]
  refine Related.bind hseed ?_
  rintro ⟨s, seed⟩ b ⟨rfl, hkept⟩
  have haffected : (context.withNodes nodes').isAlwaysAffected node'.rule =
      context.isAlwaysAffected node.rule := hnode.affected
  rw [hnode.definition, hnode.name, haffected]
  exact .ok ⟨rfl, hkept⟩

/-- A visit that keeps the runs together if it is a call of the first. -/
def SimVisit (context : HashContext D) (nodes' : StringMap (RuleNode D)) (path : List String)
    (visit visit' : HashContext.Visit D) (edge : Edge D) : Prop :=
  SharingOk context nodes' path edge.state →
    Related (Sim context nodes' path) (visit edge.target path edge.state)
      (visit' edge.target path edge.state.uncached)

theorem visitOverall_uncached {visit visit' : HashContext.Visit D} {state : HashState D}
    (hstate : SharingOk context nodes' path state) {name : String} {prior : Option D}
    (hvisit : (prior.or ((state.digests[name]?).map (·.overall))).isSome = false →
      Related (Sim context nodes' path) (visit name path state)
        (visit' name path state.uncached)) :
    Related (Sim context nodes' path) (HashContext.visitOverall visit path state name prior)
      (HashContext.visitOverall visit' path state.uncached name prior) := by
  rw [HashContext.visitOverall, HashContext.visitOverall]
  have hsame : state.uncached.digests = state.digests := rfl
  rw [hsame]
  cases hdone : prior.or ((state.digests[name]?).map (·.overall)) with
  | some d => exact .ok ⟨rfl, hstate⟩
  | none =>
      rw [hdone] at hvisit
      refine Related.map (hvisit rfl) ?_
      rintro ⟨s, d⟩ b ⟨rfl, hs⟩
      exact ⟨rfl, hs⟩

/-- Both runs resolve an input alike. -/
theorem resolved_uncached (hunshares : Unshares context nodes') {name : String}
    {node node' : RuleNode D} (hnode : context.nodes[name]? = some node)
    (hnode' : nodes'[name]? = some node') {state : HashState D}
    (hstate : SharingOk context nodes' path state) {input : String × Nat} {more : List String}
    (hinput : input ∈ (context.inputsOf node ++ more).zipIdx)
    (hinput' : input ∈ (context.inputsOf node').zipIdx) :
    InputPoint.encodedInput (context.withNodes nodes') ⟨node', path, state.uncached, input⟩ =
        InputPoint.encodedInput context ⟨node, path, state, input⟩ ∧
      InputPoint.resolved (context.withNodes nodes') ⟨node', path, state.uncached, input⟩ =
        ((InputPoint.resolved context ⟨node, path, state, input⟩).1.uncached,
          (InputPoint.resolved context ⟨node, path, state, input⟩).2) := by
  have hrel : NodeUnshared context node node' := by
    have hpair := hunshares.nodes name
    rw [hnode, hnode'] at hpair
    cases hpair with
    | some h => exact h
  have hview : InputPoint.view (context.withNodes nodes') ⟨node', path, state.uncached, input⟩ =
      InputPoint.view context ⟨node, path, state, input⟩ := by
    have hextension : (context.withNodes nodes').extensionOf node'.rule =
        context.extensionOf node.rule := by
      rw [HashContext.extensionOf, HashContext.extensionOf, hrel.name]
      rfl
    rw [InputPoint.view, InputPoint.view]
    dsimp only
    rw [hextension]
    rfl
  have hencoded : InputPoint.encodedInput (context.withNodes nodes')
      ⟨node', path, state.uncached, input⟩ =
      InputPoint.encodedInput context ⟨node, path, state, input⟩ := by
    rw [InputPoint.encodedInput, InputPoint.encodedInput, hview]
  refine ⟨hencoded, ?_⟩
  have hleft : InputPoint.resolved context ⟨node, path, state, input⟩ =
      state.resolveInput (InputPoint.encodedInput context ⟨node, path, state, input⟩)
        (InputPoint.inputLabel context ⟨node, path, state, input⟩) none path :=
    state.resolveInput_slot _ _ fun id hid =>
      @InputPoint.inputSlot_ok D context ⟨node, path, state, input⟩ hstate.positions name hnode more
        hinput id hid
  have hright : InputPoint.resolved (context.withNodes nodes')
      ⟨node', path, state.uncached, input⟩ =
      state.uncached.resolveInput (InputPoint.encodedInput context ⟨node, path, state, input⟩)
        (InputPoint.inputLabel context ⟨node, path, state, input⟩) none path := by
    rw [InputPoint.resolved, InputPoint.inputLabel, hencoded]
    refine state.uncached.resolveInput_slot _ _ fun id hid => ?_
    have hslot := @InputPoint.inputSlot_ok D (context.withNodes nodes')
      ⟨node', path, state.uncached, input⟩ hstate.positions' name hnode' [] (by
        rw [List.append_nil]
        exact hinput') id hid
    rw [InputPoint.inputLabel, hencoded] at hslot
    exact hslot
  rw [hright, state.resolveInput_uncached, ← hleft]

/-- One input keeps the runs together, if the visit along its edge does. -/
theorem inputStep_uncached (hunshares : Unshares context nodes') {name : String}
    {node node' : RuleNode D} (hnode : context.nodes[name]? = some node)
    (hnode' : nodes'[name]? = some node') {visit visit' : HashContext.Visit D}
    {fed : HashState D × TargetDigestBuilder} (hstate : SharingOk context nodes' path fed.1)
    {input : String × Nat} {more : List String}
    (hinput : input ∈ (context.inputsOf node ++ more).zipIdx)
    (hinput' : input ∈ (context.inputsOf node').zipIdx)
    (hvisit : ∀ edge, context.inputEdge node path fed input = some edge →
      SimVisit context nodes' path visit visit' edge) :
    Related (Sim context nodes' path) (context.inputStep visit node path fed input)
      ((context.withNodes nodes').inputStep visit' node' path (fed.1.uncached, fed.2) input) := by
  obtain ⟨state, builder⟩ := fed
  dsimp only at hstate ⊢
  obtain ⟨hencoded, hresolved⟩ := resolved_uncached hunshares hnode hnode' hstate hinput hinput'
  have hname : node'.rule.name = node.rule.name := by
    have hpair := hunshares.nodes name
    rw [hnode, hnode'] at hpair
    cases hpair with
    | some h => exact h.name
  have hstep := @inputStep_point D _ context visit ⟨node, path, state, input⟩ builder
  have hstep' := @inputStep_point D _ (context.withNodes nodes') visit'
    ⟨node', path, state.uncached, input⟩ builder
  have hedge := @inputEdge_point D context ⟨node, path, state, input⟩ builder
  dsimp only at hstep hstep' hedge
  rw [hstep, hstep', InputPoint.inputLabel, InputPoint.inputLabel, hencoded, hresolved, hname]
  rw [hedge] at hvisit
  obtain ⟨index, hkept⟩ := @InputPoint.resolved_state D context ⟨node, path, state, input⟩
  generalize InputPoint.resolved context ⟨node, path, state, input⟩ = resolved at hvisit hkept ⊢
  generalize InputPoint.encodedInput context ⟨node, path, state, input⟩ = encodedInput at hvisit ⊢
  obtain ⟨next, found⟩ := resolved
  dsimp only at hkept hvisit ⊢
  have hnext : SharingOk context nodes' path next := by
    rw [hkept]
    exact hstate.of_same rfl rfl rfl
  rw [HashContext.feedInput, HashContext.feedInput]
  split
  · exact .ok ⟨rfl, hnext⟩
  · rename_i dependency target prior hfound
    obtain ⟨rfl, hother⟩ := Option.filter_eq_some_iff.mp hfound
    dsimp only at hvisit
    refine Related.bind (R := Sim context nodes' path) ?_ ?_
    · refine visitOverall_uncached hnext fun hpending => ?_
      have hopen : ¬ (dependency = node.rule.name ∨
          (prior.or ((next.digests[target]?).map (·.overall))).isSome = true) := by
        rw [hpending]
        rintro (hself | hsome)
        · exact of_decide_eq_true hother hself
        · cases hsome
      rw [if_neg hopen] at hvisit
      exact hvisit _ rfl hnext
    · rintro ⟨s, d⟩ b ⟨rfl, hs⟩
      exact .ok ⟨rfl, hs⟩
  · refine Related.bind (Related.refl (fun _ => rfl) _) fun d d' hd => ?_
    obtain rfl : d = d' := hd
    cases d with
    | none => exact .ok ⟨rfl, hnext⟩
    | some d => exact .ok ⟨rfl, hnext.setSource _ d⟩

omit [HashFunction D] in
/-- Both runs have the same package groups. -/
theorem groupOf_uncached (hunshares : Unshares context nodes') (state : HashState D)
    (packageGroup : String) :
    (context.withNodes nodes').groupOf state.uncached packageGroup =
      context.groupOf state packageGroup := by
  rw [HashContext.groupOf, HashContext.groupOf]
  have hclass : ∀ group : String,
      (nodes'[group]?.any fun node => node.rule.ruleClass = "package_group") =
        (context.nodes[group]?.any fun node => node.rule.ruleClass = "package_group") := by
    intro group
    rcases (hunshares.nodes group).dest with ⟨h₁, h₂⟩ | ⟨node, node', h₁, h₂, hrel⟩
    · rw [h₁, h₂]
    · simp [h₁, h₂, hrel.ruleClass]
  exact congrArg (fun p => Option.filter p (state.rules.find packageGroup).rule) (funext hclass)

/-- A label of the visibility keeps the runs together, if the visit along its edge does. -/
theorem visibilityStep_uncached (hunshares : Unshares context nodes')
    {visit visit' : HashContext.Visit D} {canonicalKey : String}
    {fed : HashState D × TargetDigestBuilder} (hstate : SharingOk context nodes' path fed.1)
    {packageGroup : String}
    (hvisit : ∀ edge, context.visibilityEdge canonicalKey fed packageGroup = some edge →
      SimVisit context nodes' path visit visit' edge) :
    Related (Sim context nodes' path)
      (context.visibilityStep visit canonicalKey path fed packageGroup)
      ((context.withNodes nodes').visibilityStep visit' canonicalKey path (fed.1.uncached, fed.2)
        packageGroup) := by
  obtain ⟨state, builder⟩ := fed
  dsimp only at hstate ⊢
  rw [HashContext.visibilityStep_eq, HashContext.visibilityStep_eq, groupOf_uncached hunshares]
  rw [HashContext.visibilityEdge] at hvisit
  dsimp only at hvisit
  split_ifs with hself
  · exact .ok ⟨rfl, hstate⟩
  · rw [if_neg hself] at hvisit
    cases hgroup : context.groupOf state packageGroup with
    | none => exact .ok ⟨rfl, hstate⟩
    | some group =>
        rw [hgroup, Option.bind_some] at hvisit
        dsimp only
        refine Related.bind (R := Sim context nodes' path) ?_ ?_
        · refine visitOverall_uncached hstate fun hpending => ?_
          rw [hpending] at hvisit
          exact hvisit _ rfl hstate
        · rintro ⟨s, d⟩ b ⟨rfl, hs⟩
          exact .ok ⟨rfl, hs⟩

end Steps

/-! ## Finished inputs, one by one -/

namespace TargetDigestBuilder

/-- Nothing but direct contributions so far. -/
structure Fresh (builder : TargetDigestBuilder) : Prop where
  overall : builder.overallHasher = []
  deps : builder.deps = []
  recipe : ∀ recipe, builder.recipe = some recipe → recipe.deps = []

theorem Fresh.feed {builder : TargetDigestBuilder} (h : Fresh builder) (fed : List UInt8) :
    Fresh (builder.direct fed) where
  overall := h.overall
  deps := h.deps
  recipe recipe hrecipe := by
    obtain ⟨before, hbefore, rfl⟩ := Option.map_eq_some_iff.mp hrecipe
    exact h.recipe before hbefore

/-- Feed labels and the digests of their rules after what is there. -/
def feedAll (builder : TargetDigestBuilder) (labels : List String)
    (labelBytes transitive : List UInt8) : TargetDigestBuilder :=
  { builder with
    overallHasher := builder.overallHasher ++ transitive
    directHasher := builder.directHasher ++ labelBytes
    deps := if builder.trackDeps then builder.deps ++ labels else builder.deps
    recipe := builder.recipe.map fun recipe =>
      { recipe with fixed := recipe.fixed ++ labelBytes, deps := recipe.deps ++ labels } }

theorem feedAll_nil (builder : TargetDigestBuilder) : builder.feedAll [] [] [] = builder := by
  obtain ⟨overall, direct, deps, trackDeps, recipe⟩ := builder
  cases recipe <;> cases trackDeps <;> simp [feedAll]

theorem feedAll_cons (builder : TargetDigestBuilder) (label : String) (d : D)
    (labels : List String) (labelBytes transitive : List UInt8) :
    ((builder.direct (utf8 label)).transitive label label d).feedAll labels labelBytes transitive =
      builder.feedAll (label :: labels) (utf8 label ++ labelBytes) (bytes d ++ transitive) := by
  obtain ⟨overall, direct, deps, trackDeps, recipe⟩ := builder
  cases recipe <;> cases trackDeps <;>
    simp [feedAll, TargetDigestBuilder.direct, TargetDigestBuilder.transitive]

/-- After nothing but direct contributions, feeding them all is feeding them as one. -/
theorem Fresh.feedAll {builder : TargetDigestBuilder} (h : Fresh builder) (labels : List String)
    (labelBytes transitive : List UInt8) :
    builder.feedAll labels labelBytes transitive = builder.shared labels labelBytes transitive := by
  obtain ⟨overall, direct, deps, trackDeps, recipe⟩ := builder
  obtain ⟨hoverall, hdeps, hrecipe⟩ := h
  dsimp only at hoverall hdeps hrecipe
  subst hoverall hdeps
  cases recipe with
  | none =>
      cases trackDeps <;> simp [TargetDigestBuilder.feedAll, shared, TargetDigestBuilder.direct]
  | some recipe =>
      cases trackDeps <;>
        simp [TargetDigestBuilder.feedAll, shared, TargetDigestBuilder.direct, hrecipe recipe rfl]

end TargetDigestBuilder

/-- A rule's digest starts with direct contributions only. -/
theorem startDigest_fresh (context : HashContext D) (state : HashState D) (node : RuleNode D) :
    Ensures (fun fed => fed.2.Fresh) (context.startDigest state node) := by
  have hnew : ∀ trackDeps recordRecipe,
      (TargetDigestBuilder.new trackDeps recordRecipe).Fresh := by
    intro trackDeps recordRecipe
    refine ⟨rfl, rfl, fun recipe hrecipe => ?_⟩
    cases recordRecipe with
    | false => cases hrecipe
    | true =>
        cases hrecipe
        rfl
  rw [HashContext.startDigest]
  refine Ensures.bind (P := fun _ => True) (fun _ _ => trivial) ?_
  rintro ⟨state', seed⟩ -
  refine Ensures.pure ?_
  dsimp only
  split_ifs
  · apply TargetDigestBuilder.Fresh.feed
    split
    · exact (((hnew _ _).feed _).feed _).feed _
    · exact ((hnew _ _).feed _).feed _
  · split
    · exact (((hnew _ _).feed _).feed _).feed _
    · exact ((hnew _ _).feed _).feed _

section Finished

variable {context : HashContext D} {state : HashState D}

omit [HashFunction D] in
/-- The label of a rule that is no source resolves to the rule. -/
theorem HashState.resolveInput_rule {label : String}
    (hsource : (state.rules.find (targetLabel label)).source = none)
    (hrule : (state.rules.find label).rule = some label)
    (hreplaced : (state.rules.find label).replacedCanonical = none) (path : List String) :
    state.resolveInput label (targetLabel label) none path =
      (state, some (.rule label label none)) := by
  have hresolving : state.resolving label (state.rules.find label) =
      some (.rule label label none) := by
    rw [resolving, hrule, prior, hreplaced]
    rfl
  have hnone : ∀ id, (none : Option Nat) = some id →
      state.rules.ids[targetLabel label]? = some id := by
    intro id hid
    cases hid
  rw [resolveInput]
  simp only [state.inputLabelSlot_bind hnone slot_source_default, hsource,
    state.inputLabelSlot_bind hnone (state.resolving_default (targetLabel label)),
    state.rules.bind_get label (state.resolving_default label), hresolving]
  by_cases hlabel : label = targetLabel label
  · rw [if_pos hlabel, ← hlabel, hresolving]
    rfl
  · rw [if_neg hlabel]
    rfl

/-- A finished rule is fed without a visit. -/
theorem inputStep_finished {name : String} {node : RuleNode D}
    (hnode : context.nodes[name]? = some node) (hpositions : context.PositionsOk state)
    (hextension : context.extensionOf node.rule = none)
    (hreplaced : ∀ key, (state.rules.find key).replacedCanonical = none) {input : String × Nat}
    (hinput : input ∈ (context.inputsOf node).zipIdx) (hother : input.1 ≠ node.rule.name)
    (hsource : (state.rules.find (targetLabel input.1)).source = none)
    (hrule : (state.rules.find input.1).rule = some input.1) {d : TargetDigest D}
    (hdigest : state.digests[input.1]? = some d) (visit : HashContext.Visit D)
    (path : List String) (builder : TargetDigestBuilder) :
    context.inputStep visit node path (state, builder) input =
      .ok (state, (builder.direct (utf8 input.1)).transitive input.1 input.1 d.overall) := by
  have hview : InputPoint.view context ⟨node, path, state, input⟩ = none := by
    rw [InputPoint.view, hextension]
    rfl
  have hencoded : InputPoint.encodedInput context ⟨node, path, state, input⟩ = input.1 := by
    rw [InputPoint.encodedInput, hview]
    rfl
  have hresolved : InputPoint.resolved context ⟨node, path, state, input⟩ =
      (state, some (.rule input.1 input.1 none)) := by
    have hslot : InputPoint.resolved context ⟨node, path, state, input⟩ =
        state.resolveInput (InputPoint.encodedInput context ⟨node, path, state, input⟩)
          (InputPoint.inputLabel context ⟨node, path, state, input⟩) none path :=
      state.resolveInput_slot _ _ fun id hid =>
        @InputPoint.inputSlot_ok D context ⟨node, path, state, input⟩ hpositions name hnode []
          (by rw [List.append_nil]; exact hinput) id hid
    rw [hslot, InputPoint.inputLabel, hencoded]
    exact HashState.resolveInput_rule hsource hrule (hreplaced _) path
  have hstep := @inputStep_point D _ context visit ⟨node, path, state, input⟩ builder
  dsimp only at hstep
  rw [hstep, hresolved, hencoded, HashContext.feedInput]
  simp only [Option.filter, decide_not, hother, decide_false, Bool.not_false, if_true,
    HashContext.visitOverall, Option.none_or, hdigest, Option.map_some]
  rfl

/-- Finished rules are fed one by one without a visit. -/
theorem inputSteps_finished {name : String} {node : RuleNode D}
    (hnode : context.nodes[name]? = some node) (hpositions : context.PositionsOk state)
    (hextension : context.extensionOf node.rule = none)
    (hreplaced : ∀ key, (state.rules.find key).replacedCanonical = none)
    (hother : node.rule.name ∉ context.inputsOf node)
    (hsource : ∀ label ∈ context.inputsOf node,
      (state.rules.find (targetLabel label)).source = none)
    {entry : List UInt8 × List UInt8} (hfed : FedFrom state (context.inputsOf node) entry)
    (visit : HashContext.Visit D) (path : List String) (builder : TargetDigestBuilder) :
    (context.inputsOf node).zipIdx.foldlM (context.inputStep visit node path) (state, builder) =
      .ok (state, builder.feedAll (context.inputsOf node) entry.1 entry.2) := by
  obtain ⟨digests, hall, rfl⟩ := hfed
  have hloop : ∀ (labels : List String) (digests : List (TargetDigest D)) (k : Nat)
      (builder : TargetDigestBuilder),
      (∀ item ∈ labels.zipIdx k, item ∈ (context.inputsOf node).zipIdx) →
      List.Forall₂ (fun label d => (state.rules.find label).rule = some label ∧
        state.digests[label]? = some d) labels digests →
      (labels.zipIdx k).foldlM (context.inputStep visit node path) (state, builder) =
        .ok (state, builder.feedAll labels (labels.flatMap utf8)
          (digests.flatMap fun d => bytes d.overall)) := by
    intro labels
    induction labels with
    | nil =>
        intro digests k builder _ hall
        cases hall
        rw [List.flatMap_nil, List.flatMap_nil, TargetDigestBuilder.feedAll_nil]
        rfl
    | cons label rest ih =>
        intro digests k builder hmem hall
        cases hall with
        | @cons _ d _ digests hlabel hrest =>
            rw [List.zipIdx_cons] at hmem ⊢
            have hitem := hmem (label, k) List.mem_cons_self
            have hinput := List.fst_mem_of_mem_zipIdx hitem
            rw [List.foldlM_cons, inputStep_finished hnode hpositions hextension hreplaced hitem
              (fun heq => hother (heq ▸ hinput)) (hsource _ hinput) hlabel.1 hlabel.2, ok_bind,
              ih digests (k + 1) _ (fun item hitem => hmem item (List.mem_cons_of_mem _ hitem))
                hrest, TargetDigestBuilder.feedAll_cons, List.flatMap_cons, List.flatMap_cons]
  exact hloop _ digests 0 builder (fun item hitem => hitem) hall

end Finished

/-! ## The two runs -/

/-- The digests of the shared inputs are in the cache, or all at hand. -/
def FedAsOne (state : HashState D) (group : RepositoryInputGroup) : Prop :=
  group.extension ∈ state.repositoryInputDigests ∨
    (HashContext.sharedDigests state group.labels).isSome = true

theorem fedAsOne_of_apply {state state' : HashState D} (hrules : state'.rules = state.rules)
    (hdigests : state'.digests = state.digests)
    (hcache : state'.repositoryInputDigests = state.repositoryInputDigests)
    {group : RepositoryInputGroup} {builder : TargetDigestBuilder}
    {fed : HashState D × TargetDigestBuilder}
    (happly : HashContext.applyRepositoryInputs state' group builder = some fed) :
    FedAsOne state group := by
  have hsame : HashContext.sharedDigests state' group.labels =
      HashContext.sharedDigests state group.labels := by
    rw [HashContext.sharedDigests_eq, HashContext.sharedDigests_eq]
    have hone : HashContext.sharedDigest state' = HashContext.sharedDigest state := by
      funext label
      simp only [HashContext.sharedDigest, HashState.completed, hrules, hdigests]
    rw [hone]
  obtain ⟨entry, hentry, -⟩ := Option.bind_eq_some_iff.mp happly
  rcases Option.or_eq_some_iff.mp hentry with hcached | ⟨-, hnow⟩
  · left
    rw [hcache] at hcached
    exact mem_of_getElem? hcached
  · right
    rw [← hsame, hnow]
    rfl

/-- Whenever a hub's inputs are fed as one, none of their labels has a source. -/
def Prepared.SharesCleanly (prepared : Prepared D) : Prop :=
  ∀ ⦃fuel : Nat⦄ ⦃name : String⦄ ⦃path : List String⦄ ⦃state : HashState D⦄ ⦃exact : Bool⦄
    ⦃node : RuleNode D⦄ ⦃group : RepositoryInputGroup⦄,
    prepared.Calls ⟨fuel + 1, name, path, state, exact⟩ →
    Enters prepared.context name path state node →
    node.prepared.sharedInputs = some group → FedAsOne state group →
    ∀ label ∈ group.labels, (state.rules.find (targetLabel label)).source = none

section Runs

variable {prepared : Prepared D} {nodes' : StringMap (RuleNode D)}

/-- What is known about the calls inside a call. -/
def SimCalls (prepared : Prepared D) (nodes' : StringMap (RuleNode D)) (fuel : Nat) : Prop :=
  ∀ name path state exact, prepared.Calls ⟨fuel, name, path, state, exact⟩ →
    SharingOk prepared.context nodes' path state →
    Related (Sim prepared.context nodes' path) (prepared.context.nodeDigest fuel name path state)
      ((prepared.context.withNodes nodes').nodeDigest fuel name path state.uncached)

section Call

variable {fuel : Nat} {name : String} {path : List String} {state : HashState D} {exact : Bool}
  {node node' : RuleNode D}

/-- The end of a call: the labels of the visibility, and the finished digest. -/
theorem finish_uncached (hunshares : Unshares prepared.context nodes')
    (hinner : SimCalls prepared nodes' fuel)
    (hcall : prepared.Calls ⟨fuel + 1, name, path, state, exact⟩)
    (henter : Enters prepared.context name path state node)
    (hrel : NodeUnshared prepared.context node node')
    {start : HashState D × TargetDigestBuilder} {inputs : List String}
    (hstart : prepared.context.enterStart state node = .ok (start, inputs))
    {done : HashState D × TargetDigestBuilder}
    (hdone : inputs.zipIdx.foldlM (prepared.context.inputStep (prepared.context.nodeDigest fuel)
      node (node.rule.name :: path)) start = .ok done)
    (hstate : SharingOk prepared.context nodes' (node.rule.name :: path) done.1) :
    Related (Sim prepared.context nodes' path)
      (do
        let fed ← (prepared.context.visibilityOf node.rule).foldlM
          (prepared.context.visibilityStep (prepared.context.nodeDigest fuel) node.rule.name
            (node.rule.name :: path)) done
        return HashContext.finishNode fed.1 node.rule.name fed.2)
      (do
        let fed ← ((prepared.context.withNodes nodes').visibilityOf node'.rule).foldlM
          ((prepared.context.withNodes nodes').visibilityStep
            ((prepared.context.withNodes nodes').nodeDigest fuel) node'.rule.name
            (node'.rule.name :: path)) (done.1.uncached, done.2)
        return HashContext.finishNode fed.1 node'.rule.name fed.2) := by
  have hgroups : (prepared.context.withNodes nodes').visibilityOf node'.rule =
      prepared.context.visibilityOf node.rule := hrel.visibility
  have hpath : node.rule.name ∉ path := by
    rw [hunshares.keyed henter.node]
    exact henter.fresh
  rw [hgroups, hrel.name]
  refine Related.bind (R := Sim prepared.context nodes' (node.rule.name :: path)) ?_ ?_
  · refine Related.foldlM_prefix ?_ ⟨rfl, hstate⟩
    rintro before packageGroup after hsplit fed fed' hfed ⟨rfl, hkept⟩
    refine visibilityStep_uncached hunshares hkept fun edge hedge => ?_
    exact hinner _ _ _ _ (.visibility hcall henter hstart hdone hsplit hfed hedge)
  · rintro ⟨s, b⟩ fed' ⟨rfl, hs⟩
    exact .ok ⟨rfl, hs.finishNode hpath b⟩

/-- A call that goes through all inputs one by one. -/
theorem loops_uncached (hunshares : Unshares prepared.context nodes')
    (hinner : SimCalls prepared nodes' fuel)
    (hcall : prepared.Calls ⟨fuel + 1, name, path, state, exact⟩)
    (henter : Enters prepared.context name path state node)
    (hnode' : nodes'[name]? = some node') (hrel : NodeUnshared prepared.context node node')
    {start : HashState D × TargetDigestBuilder} {inputs : List String}
    (hstart : prepared.context.enterStart state node = .ok (start, inputs))
    (hinputs : inputs = prepared.context.inputsOf node')
    (hstate : SharingOk prepared.context nodes' (node.rule.name :: path) start.1) :
    Related (Sim prepared.context nodes' path)
      (do
        let fed ← inputs.zipIdx.foldlM (prepared.context.inputStep
          (prepared.context.nodeDigest fuel) node (node.rule.name :: path)) start
        let fed ← (prepared.context.visibilityOf node.rule).foldlM
          (prepared.context.visibilityStep (prepared.context.nodeDigest fuel) node.rule.name
            (node.rule.name :: path)) fed
        return HashContext.finishNode fed.1 node.rule.name fed.2)
      (do
        let fed ← inputs.zipIdx.foldlM ((prepared.context.withNodes nodes').inputStep
          ((prepared.context.withNodes nodes').nodeDigest fuel) node' (node'.rule.name :: path))
          (start.1.uncached, start.2)
        let fed ← ((prepared.context.withNodes nodes').visibilityOf node'.rule).foldlM
          ((prepared.context.withNodes nodes').visibilityStep
            ((prepared.context.withNodes nodes').nodeDigest fuel) node'.rule.name
            (node'.rule.name :: path)) fed
        return HashContext.finishNode fed.1 node'.rule.name fed.2) := by
  obtain ⟨-, more, hmore⟩ := HashContext.enterStart_rules hstart
  have hloop : Related (Sim prepared.context nodes' (node.rule.name :: path))
      (inputs.zipIdx.foldlM (prepared.context.inputStep (prepared.context.nodeDigest fuel) node
        (node.rule.name :: path)) start)
      (inputs.zipIdx.foldlM ((prepared.context.withNodes nodes').inputStep
        ((prepared.context.withNodes nodes').nodeDigest fuel) node' (node'.rule.name :: path))
        (start.1.uncached, start.2)) := by
    rw [hrel.name]
    refine Related.foldlM_prefix ?_ ⟨rfl, hstate⟩
    rintro before item after hsplit fed fed' hfed ⟨rfl, hkept⟩
    have hitem : item ∈ inputs.zipIdx := by
      rw [hsplit]
      exact List.mem_append_right _ List.mem_cons_self
    refine inputStep_uncached hunshares henter.node hnode' hkept (hmore ▸ hitem)
      (hinputs ▸ hitem) fun edge hedge => ?_
    exact hinner _ _ _ _ (.input hcall henter hstart hsplit hfed hedge)
  refine hloop.bind_left ?_
  rintro done done' hdone ⟨rfl, hkept⟩
  exact finish_uncached hunshares hinner hcall henter hrel hstart hdone hkept

/-- A call keeps the runs together, if the calls inside it do. -/
theorem enterNode_uncached (hunshares : Unshares prepared.context nodes')
    (hclean : prepared.SharesCleanly) (hinner : SimCalls prepared nodes' fuel)
    (hcall : prepared.Calls ⟨fuel + 1, name, path, state, exact⟩)
    (henter : Enters prepared.context name path state node)
    (hnode' : nodes'[name]? = some node')
    (hstate : SharingOk prepared.context nodes' path state) :
    Related (Sim prepared.context nodes' path)
      (prepared.context.enterNode (prepared.context.nodeDigest fuel) node path state)
      ((prepared.context.withNodes nodes').enterNode
        ((prepared.context.withNodes nodes').nodeDigest fuel) node' path state.uncached) := by
  have hrel : NodeUnshared prepared.context node node' := by
    have hpair := hunshares.nodes name
    rw [henter.node, hnode'] at hpair
    cases hpair with
    | some h => exact h
  have hpushed : SharingOk prepared.context nodes' (node.rule.name :: path) state := by
    rw [hunshares.keyed henter.node]
    exact hstate.push henter.pending
  rw [HashContext.enterNode_eq, HashContext.enterNode_eq]
  have hfirst := @startDigest_uncached D _ prepared.context nodes' state node node' hrel
  cases hstart : prepared.context.startDigest state node with
  | error failure =>
      rw [HashContext.enterStart, HashContext.enterStart, hstart, hfirst.error_left hstart]
      exact .error failure
  | ok first =>
      obtain ⟨first', hstart', rfl, hrules, hdigests, hcache⟩ := hfirst.ok_left hstart
      have hfirstState := hpushed.of_same hrules hdigests hcache
      have hright : (prepared.context.withNodes nodes').enterStart state.uncached node' =
          .ok ((first.1.uncached, first.2), prepared.context.inputsOf node') := by
        rw [HashContext.enterStart, hstart', hrel.unshared]
        rfl
      rw [hright, ok_bind]
      cases hgroup : node.prepared.sharedInputs with
      | none =>
          have hinputs : prepared.context.inputsOf node' = prepared.context.inputsOf node := by
            rw [hrel.inputs, HashContext.allInputs, hgroup]
            exact List.append_nil _
          have hleft : prepared.context.enterStart state node =
              .ok (first, prepared.context.inputsOf node') := by
            rw [HashContext.enterStart, hstart, hinputs, hgroup]
            rfl
          rw [hleft, ok_bind]
          exact loops_uncached hunshares hinner hcall henter hnode' hrel hleft rfl hfirstState
      | some group =>
          have hinputs : prepared.context.inputsOf node' =
              prepared.context.inputsOf node ++ group.labels := by
            rw [hrel.inputs, HashContext.allInputs, hgroup]
            rfl
          cases happly : HashContext.applyRepositoryInputs first.1 group first.2 with
          | none =>
              have hleft : prepared.context.enterStart state node =
                  .ok (first, prepared.context.inputsOf node') := by
                rw [HashContext.enterStart, hstart, hinputs, hgroup, ok_bind]
                dsimp only
                rw [happly]
                rfl
              rw [hleft, ok_bind]
              exact loops_uncached hunshares hinner hcall henter hnode' hrel hleft rfl hfirstState
          | some fed =>
              obtain ⟨hnone, hextension, hself⟩ := hrel.hub group hgroup
              have hlabels : prepared.context.inputsOf node' = group.labels := by
                rw [hinputs, hnone]
                exact List.nil_append _
              have hleft : prepared.context.enterStart state node = .ok (fed, []) := by
                rw [HashContext.enterStart, hstart, hgroup, ok_bind]
                dsimp only
                rw [happly, hnone]
                rfl
              obtain ⟨entry, hentry, hfed, huncached, hfedState⟩ :=
                hfirstState.applyRepositoryInputs hunshares henter.node hgroup happly
              have hsources := hclean hcall henter hgroup
                (fedAsOne_of_apply hrules hdigests hcache happly)
              have hloop := @inputSteps_finished D _ (prepared.context.withNodes nodes')
                first.1.uncached name node' hnode' hfirstState.positions'
                (by rw [← hextension, HashContext.extensionOf, HashContext.extensionOf, hrel.name]
                    rfl)
                hfirstState.replaced (hrel.name ▸ hlabels ▸ hself)
                (fun label hlabel => by
                  rw [← hsources label (hlabels ▸ hlabel), ← hrules]
                  rfl)
                entry (hlabels ▸ hentry) ((prepared.context.withNodes nodes').nodeDigest fuel)
                (node'.rule.name :: path) first.2
              have hfresh := startDigest_fresh prepared.context state node first hstart
              have hdone : (first.1.uncached, first.2.feedAll
                  ((prepared.context.withNodes nodes').inputsOf node') entry.1 entry.2) =
                  (fed.1.uncached, fed.2) := by
                rw [huncached, hfed, hfresh.feedAll, ← hlabels]
                rfl
              rw [hdone] at hloop
              rw [hleft, ok_bind]
              dsimp only
              have hwith : (prepared.context.withNodes nodes').inputsOf node' =
                  prepared.context.inputsOf node' := rfl
              rw [hwith] at hloop
              rw [hloop, ok_bind]
              exact finish_uncached hunshares hinner hcall henter hrel hleft rfl hfedState

end Call

/-- Calls keep the runs together. -/
theorem nodeDigest_uncached (hunshares : Unshares prepared.context nodes')
    (hclean : prepared.SharesCleanly) (fuel : Nat) : SimCalls prepared nodes' fuel := by
  induction fuel with
  | zero => exact fun _ _ _ _ _ _ => .error _
  | succ fuel ih =>
      intro name path state exact hcall hstate
      rw [HashContext.nodeDigest, HashContext.nodeDigest, HashContext.nodeStep,
        HashContext.nodeStep]
      have hsame : state.uncached.digests = state.digests := rfl
      have hnodes : (prepared.context.withNodes nodes').nodes = nodes' := rfl
      rw [hsame, hnodes]
      cases hdigest : state.digests[name]? with
      | some d => exact .ok ⟨rfl, hstate⟩
      | none =>
          rcases (hunshares.nodes name).dest with ⟨h, h'⟩ | ⟨node, node', h, h', hrel⟩
          · rw [h, h']
            exact .error _
          · rw [h, h']
            dsimp only
            split_ifs with hpath
            · rw [HashContext.placeholder, HashContext.placeholder, hrel.definition]
              exact .ok ⟨rfl, hstate⟩
            · exact enterNode_uncached hunshares hclean ih hcall ⟨hdigest, h, hpath⟩ h' hstate

/-- Runs over the same targets stay together: the second one ends in the state of the first
without its cache, and with the same digests. -/
theorem run_uncached (hunshares : Unshares prepared.context nodes')
    (hclean : prepared.SharesCleanly)
    (hstart : SharingOk prepared.context nodes' [] prepared.state) :
    Related Uncaches prepared.run
      (Prepared.run ⟨prepared.context.withNodes nodes', prepared.state.uncached,
        prepared.targets⟩) := by
  suffices h : Related (Sim prepared.context nodes' []) prepared.run
      (Prepared.run ⟨prepared.context.withNodes nodes', prepared.state.uncached,
        prepared.targets⟩) from h.mono fun _ _ hsim => hsim.1
  refine Related.foldlM_prefix ?_ ⟨rfl, hstart⟩
  rintro before item after hsplit fed fed' hfed ⟨rfl, hkept⟩
  have hdepth : (prepared.context.withNodes nodes').depth = prepared.context.depth := by
    rw [HashContext.depth, HashContext.depth, hunshares.nodes.size_eq]
    rfl
  have hrule : ∀ key, item.ruleKey = some key →
      Related (Sim prepared.context nodes' []) (prepared.context.ruleDigest fed.1 key)
        ((prepared.context.withNodes nodes').ruleDigest fed.1.uncached key) := by
    intro key hkey
    have hfind : fed.1.uncached.rules.find key = fed.1.rules.find key := rfl
    have hprior : fed.1.uncached.prior (fed.1.rules.find key) =
        fed.1.prior (fed.1.rules.find key) := rfl
    rw [HashContext.ruleDigest_eq, HashContext.ruleDigest_eq, hfind, hprior, hdepth]
    cases hdone : fed.1.prior (fed.1.rules.find key) with
    | some d => exact .ok ⟨rfl, hkept⟩
    | none =>
        cases hname : (fed.1.rules.find key).rule with
        | none => exact .error _
        | some name =>
            exact nodeDigest_uncached hunshares hclean _ name [] fed.1 true
              (.target hsplit hfed hkey hdone hname) hkept
  have htarget : Related (Sim prepared.context nodes' [])
      (hashTarget prepared.context fed.1 item)
      (hashTarget (prepared.context.withNodes nodes') fed.1.uncached item) := by
    cases item with
    | rule key =>
        refine Related.bind (hrule key rfl) ?_
        rintro ⟨s, d⟩ b ⟨rfl, hs⟩
        exact .ok ⟨rfl, hs⟩
    | generated name generatingRule =>
        refine Related.bind (hrule generatingRule rfl) ?_
        rintro ⟨s, d⟩ b ⟨rfl, hs⟩
        exact .ok ⟨rfl, hs⟩
    | source label => exact .ok ⟨rfl, hkept⟩
  refine Related.bind htarget ?_
  rintro ⟨s, d⟩ b ⟨rfl, hs⟩
  exact .ok ⟨rfl, hs⟩

end Runs

end BazelDiff
