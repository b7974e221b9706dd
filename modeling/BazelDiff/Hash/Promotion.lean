/-
# Files that take the place of rules

An input that leads to no other rule is looked for in the workspace, and a file found
there becomes the source of its label. The source of a label comes before its rule, so a
rule whose label is given a source is a file to every edge that is resolved afterwards.
The branch is meant for inputs the query did not list; an edge from a rule to itself and
an edge whose fallback is on the path take it too. A run never mistakes a rule for a file
exactly when no such edge finds a file of its label.
-/

import BazelDiff.Hash.BackEdge

namespace BazelDiff

open Text HashFunction Outcome

variable {D : Type}

/-! ## The labels of a query result -/

/-- The name of a rule or of a generated file. -/
def builtName (target : Target) : Option String :=
  ((ruleOf target).map (·.name)).or ((generatedOf target).map (·.name))

/-- The label is that of a rule or of a generated file, bare or in some configuration. -/
def NamesBuilt (targets : List Target) (label : String) : Prop :=
  ∃ name ∈ targets.filterMap builtName, name = label ∨ targetLabel name = label

/-- The label is that of a source file. -/
def NamesSource (targets : List Target) (label : String) : Prop :=
  label ∈ (sourceTargets targets).map (·.name)

instance (targets : List Target) (label : String) : Decidable (NamesBuilt targets label) :=
  inferInstanceAs (Decidable (∃ name ∈ targets.filterMap builtName, _))

instance (targets : List Target) (label : String) : Decidable (NamesSource targets label) :=
  inferInstanceAs (Decidable (label ∈ _))

/-! ## The key of an edge -/

namespace HashState

/-- The key under which an input that is no source leads to a rule: the instance it names, its
label, or the first configured instance of the label unless that is being hashed. -/
def edgeKey (state : HashState D) (encodedInput inputLabel : String) (path : List String) :
    Option String :=
  if encodedInput ≠ inputLabel ∧ (state.rules.find encodedInput).rule.isSome then
    some encodedInput
  else if (state.rules.find inputLabel).rule.isSome then some inputLabel
  else ((state.instances[inputLabel]?).bind (·.head?)).filter fun fallback =>
    fallback ∉ path ∧ (state.rules.find fallback).rule.isSome

theorem resolving_of_rule {state : HashState D} {key node : String}
    (h : (state.rules.find key).rule = some node) :
    ∃ prior, state.resolving key (state.rules.find key) = some (.rule key node prior) := by
  rw [resolving, h]
  exact ⟨_, rfl⟩

theorem resolving_of_no_rule {state : HashState D} {key : String}
    (h : (state.rules.find key).rule.isSome = false) :
    state.resolving key (state.rules.find key) = none := by
  rw [Option.isSome_eq_false_iff, Option.isNone_iff_eq_none] at h
  rw [resolving, h]
  rfl

/-- An input that is no source resolves to the rule of its key. -/
theorem resolveByName_eq_edgeKey {state : HashState D} {inputLabel : String}
    (hsource : (state.rules.find inputLabel).source = none) (encodedInput : String)
    (path : List String) :
    state.resolveByName encodedInput inputLabel path =
      (state.edgeKey encodedInput inputLabel path).bind fun key =>
        state.resolving key (state.rules.find key) := by
  have hbare : state.resolveByName inputLabel inputLabel path =
      (if (state.rules.find inputLabel).rule.isSome then some inputLabel
        else ((state.instances[inputLabel]?).bind (·.head?)).filter fun fallback =>
          fallback ∉ path ∧ (state.rules.find fallback).rule.isSome).bind fun key =>
        state.resolving key (state.rules.find key) := by
    rw [resolveByName, hsource]
    dsimp only
    rw [if_pos rfl]
    cases hrule : (state.rules.find inputLabel).rule with
    | some node =>
        obtain ⟨prior, hresolving⟩ := resolving_of_rule hrule
        simp [hresolving]
    | none =>
        rw [resolving_of_no_rule (by rw [hrule]; rfl)]
        cases (state.instances[inputLabel]?).bind (·.head?) with
        | none => rfl
        | some fallback =>
            by_cases hpath : fallback ∈ path
            · simp [hpath, Option.filter]
            · cases hfallback : (state.rules.find fallback).rule with
              | none =>
                  have hnone : state.resolving fallback (state.rules.find fallback) = none :=
                    resolving_of_no_rule (by rw [hfallback]; rfl)
                  simp [hpath, hfallback, Option.filter, hnone]
              | some node => simp [hpath, hfallback, Option.filter]
  rw [resolveByName, hsource] at hbare ⊢
  rw [edgeKey]
  dsimp only at hbare ⊢
  rw [if_pos rfl] at hbare
  by_cases hsame : encodedInput = inputLabel
  · rw [if_pos hsame, if_neg (fun h => h.1 hsame), Option.none_or]
    exact hbare
  · rw [if_neg hsame]
    cases hrule : (state.rules.find encodedInput).rule with
    | some node =>
        obtain ⟨prior, hresolving⟩ := resolving_of_rule hrule
        rw [if_pos ⟨hsame, rfl⟩, hresolving, Option.bind_some, hresolving]
        rfl
    | none =>
        rw [resolving_of_no_rule (by rw [hrule]; rfl), if_neg (by simp), Option.none_or]
        exact hbare

/-- A key leads to a rule. -/
theorem rule_of_edgeKey {state : HashState D} {encodedInput inputLabel key : String}
    {path : List String} (h : state.edgeKey encodedInput inputLabel path = some key) :
    ∃ node, (state.rules.find key).rule = some node := by
  rw [← Option.isSome_iff_exists]
  rw [edgeKey] at h
  split_ifs at h with hexact hbare
  · rw [← Option.some.inj h]
    exact hexact.2
  · rw [← Option.some.inj h]
    exact hbare
  · have hkey := (Option.filter_eq_some_iff.mp h).2
    exact (of_decide_eq_true hkey).2

end HashState

/-! ## The inputs a run resolves -/

/-- An input the traversal comes to: the rule, the names being hashed, the state, the input with
its position. -/
structure InputPoint (D : Type) where
  node : RuleNode D
  path : List String
  state : HashState D
  input : String × Nat

namespace InputPoint

variable (context : HashContext D) (point : InputPoint D)

def view : Option String :=
  HashContext.extensionView point.state (context.extensionOf point.node.rule) point.input.1

def encodedInput : String :=
  (point.view context).getD point.input.1

def inputLabel : String :=
  targetLabel (point.encodedInput context)

def inputSlot : Option Nat :=
  if (point.view context).isSome then none
  else point.node.inputPositions.bind fun ids => (ids[point.input.2]?).getD none

/-- What `resolve_input` answers for the input. -/
def resolved : HashState D × Option (Input D) :=
  point.state.resolveInput (point.encodedInput context) (point.inputLabel context)
    (point.inputSlot context) point.path

/-- The input leads to no rule but the one being hashed. -/
def Unfollowed : Prop :=
  ∀ key, point.state.edgeKey (point.encodedInput context) (point.inputLabel context) point.path =
    some key → key = point.node.rule.name

/-- The input is given the source `d`: it is neither a source nor an edge to another rule, and
there is a file of its label. -/
def Promotes [HashFunction D] (d : D) : Prop :=
  (∀ d', (point.resolved context).2 ≠ some (.source d')) ∧
    (∀ dependency node prior, (point.resolved context).2 = some (.rule dependency node prior) →
      dependency = point.node.rule.name) ∧
    context.sourceHasher.softDigest (point.inputLabel context) = .ok (some d)

/-- An input whose label is that of a rule or a generated file and of no source is not resolved
to a file, and a file is given to labels outside the query result only. -/
structure RuleNotFile [HashFunction D] (targets : List Target) : Prop where
  resolved : NamesBuilt targets (point.inputLabel context) →
    ¬ NamesSource targets (point.inputLabel context) →
    ∀ d, (point.resolved context).2 ≠ some (.source d)
  promoted : ∀ d, point.Promotes context d →
    ¬ NamesBuilt targets (point.inputLabel context) ∧
      ¬ NamesSource targets (point.inputLabel context)

/-- An edge to a rule or a generated file that is not followed finds no file of its label. -/
def NoFileBehind [HashFunction D] (targets : List Target) : Prop :=
  NamesBuilt targets (point.inputLabel context) →
    ¬ NamesSource targets (point.inputLabel context) → point.Unfollowed context →
    ∀ d : D, context.sourceHasher.softDigest (point.inputLabel context) ≠ .ok (some d)

end InputPoint

variable [HashFunction D]

/-- The inputs a run comes to. -/
def Prepared.Reaches (prepared : Prepared D) (point : InputPoint D) : Prop :=
  ∃ fuel name path state exact start inputs before after fed,
    prepared.Calls ⟨fuel + 1, name, path, state, exact⟩ ∧
    Enters prepared.context name path state point.node ∧
    prepared.context.enterStart state point.node = .ok (start, inputs) ∧
    inputs.zipIdx = before ++ point.input :: after ∧
    before.foldlM (prepared.context.inputStep (prepared.context.nodeDigest fuel) point.node
      (point.node.rule.name :: path)) start = .ok fed ∧
    point.path = point.node.rule.name :: path ∧ point.state = fed.1

/-! ## What a visit does to the table -/

namespace HashContext

variable {context : HashContext D}

/-- The contributions before the inputs leave the table alone. -/
theorem rules_startDigest (state : HashState D) (node : RuleNode D) :
    Ensures (fun fed => fed.1.rules = state.rules) (context.startDigest state node) := by
  have hfile : ∀ (fed : HashState D × List UInt8) (path : String),
      Ensures (fun fed' => fed'.1.rules = fed.1.rules) (context.feedStackFile fed path) := by
    intro fed path
    have hbzl : Ensures (fun done => done.1.rules = fed.1.rules)
        (context.bzlDigest fed.1 path) := by
      rw [bzlDigest]
      split
      · exact Ensures.pure rfl
      · exact Ensures.bind (P := fun _ => True) (fun _ _ => trivial)
          fun d _ => Ensures.pure rfl
    refine Ensures.bind hbzl ?_
    rintro ⟨state', d⟩ hdone
    cases d with
    | none => exact Ensures.pure hdone
    | some d => exact Ensures.pure hdone
  have hseed : Ensures (fun done => done.1.rules = state.rules)
      (context.ruleBzlSeed state node.rule) := by
    rw [ruleBzlSeed]
    split_ifs
    · exact Ensures.pure rfl
    · refine Ensures.bind (P := fun fed => fed.1.rules = state.rules) ?_ fun fed hfed =>
        Ensures.pure hfed
      exact Ensures.foldlM (fun path _ fed hfed =>
        (hfile fed path).mono fun _ hnext => hnext.trans hfed) rfl
  exact Ensures.bind hseed fun done hdone => Ensures.pure hdone

/-- A visit starts its loops on the table it was given, with the rule's own inputs first. -/
theorem enterStart_rules {state : HashState D} {node : RuleNode D}
    {start : HashState D × TargetDigestBuilder} {inputs : List String}
    (h : context.enterStart state node = .ok (start, inputs)) :
    start.1.rules = state.rules ∧ ∃ more, inputs = context.inputsOf node ++ more := by
  obtain ⟨⟨state', builder⟩, hfirst, h⟩ := bind_eq_ok h
  have hrules := rules_startDigest state node _ hfirst
  dsimp only at h hrules
  cases hgroup : node.prepared.sharedInputs with
  | none =>
      rw [hgroup] at h
      cases h
      exact ⟨hrules, [], (List.append_nil _).symm⟩
  | some group =>
      rw [hgroup] at h
      dsimp only at h
      cases happly : applyRepositoryInputs state' group builder with
      | none =>
          rw [happly] at h
          cases h
          exact ⟨hrules, group.labels, rfl⟩
      | some fed =>
          rw [happly] at h
          cases h
          obtain ⟨found, -, happly⟩ := Option.bind_eq_some_iff.mp happly
          obtain rfl := Option.some.inj happly
          exact ⟨hrules, [], (List.append_nil _).symm⟩

end HashContext

section Points

variable {context : HashContext D}

omit [HashFunction D] in
/-- Resolving an input changes the index of configured keys at most. -/
theorem InputPoint.resolved_state (point : InputPoint D) :
    ∃ index, (point.resolved context).1 = { point.state with labelInstances := index } := by
  rw [resolved, HashState.resolveInput]
  dsimp only
  split
  · exact ⟨_, rfl⟩
  · split
    · exact ⟨_, rfl⟩
    · split
      · exact ⟨_, rfl⟩
      · split_ifs
        · exact ⟨_, rfl⟩
        · exact ⟨_, rfl⟩

omit [HashFunction D] in
theorem InputPoint.resolved_rules (point : InputPoint D) :
    (point.resolved context).1.rules = point.state.rules := by
  obtain ⟨index, hstate⟩ : ∃ index, (point.resolved context).1 =
      { point.state with labelInstances := index } := point.resolved_state
  rw [hstate]

omit [HashFunction D] in
/-- The position of an input is that of its label. -/
theorem InputPoint.inputSlot_ok {point : InputPoint D}
    (hpositions : context.PositionsOk point.state) {name : String}
    (hnode : context.nodes[name]? = some point.node) {more : List String}
    (hinput : point.input ∈ (context.inputsOf point.node ++ more).zipIdx) {id : Nat}
    (hid : point.inputSlot context = some id) :
    point.state.rules.ids[point.inputLabel context]? = some id := by
  rw [inputSlot] at hid
  split_ifs at hid with hview
  have hnone : point.view context = none := by simpa using hview
  rw [inputLabel, encodedInput, hnone]
  exact hpositions.input hnode hinput hid

omit [HashFunction D] in
/-- An input is resolved by name. -/
theorem InputPoint.resolved_eq {point : InputPoint D}
    (hpositions : context.PositionsOk point.state) {name : String}
    (hnode : context.nodes[name]? = some point.node) {more : List String}
    (hinput : point.input ∈ (context.inputsOf point.node ++ more).zipIdx) :
    (point.resolved context).2 = point.state.resolveByName (point.encodedInput context)
      (point.inputLabel context) point.path := by
  obtain ⟨index, heq, -⟩ := point.state.resolveInput_eq (point.encodedInput context) point.path
    fun id hid => inputSlot_ok hpositions hnode hinput hid
  rw [resolved, heq]

omit [HashFunction D] in
/-- An input that is no source is followed unless it leads to its own rule or nowhere. -/
theorem InputPoint.unfollowed_iff {point : InputPoint D}
    (hresolved : (point.resolved context).2 = point.state.resolveByName
      (point.encodedInput context) (point.inputLabel context) point.path)
    (hsource : (point.state.rules.find (point.inputLabel context)).source = none) :
    point.Unfollowed context ↔ ∀ dependency node prior,
      (point.resolved context).2 = some (.rule dependency node prior) →
        dependency = point.node.rule.name := by
  rw [hresolved, HashState.resolveByName_eq_edgeKey hsource, Unfollowed]
  constructor
  · intro h dependency node prior hrule
    obtain ⟨key, hkey, hrule⟩ := Option.bind_eq_some_iff.mp hrule
    obtain ⟨_, hnode⟩ := HashState.rule_of_edgeKey hkey
    obtain ⟨_, hresolving⟩ := HashState.resolving_of_rule hnode
    rw [hresolving] at hrule
    cases hrule
    exact h _ hkey
  · intro h key hkey
    obtain ⟨node, hnode⟩ := HashState.rule_of_edgeKey hkey
    obtain ⟨prior, hresolving⟩ := HashState.resolving_of_rule hnode
    exact h key node prior (by rw [hkey, Option.bind_some, hresolving])

omit [HashFunction D] in
/-- An input is resolved to a file exactly when its label has a source. -/
theorem InputPoint.source_iff {point : InputPoint D}
    (hresolved : (point.resolved context).2 = point.state.resolveByName
      (point.encodedInput context) (point.inputLabel context) point.path) :
    (∃ d, (point.resolved context).2 = some (.source d)) ↔
      (point.state.rules.find (point.inputLabel context)).source ≠ none := by
  rw [hresolved]
  constructor
  · rintro ⟨d, hd⟩ hnone
    rw [HashState.resolveByName_eq_edgeKey hnone] at hd
    obtain ⟨key, hkey, hd⟩ := Option.bind_eq_some_iff.mp hd
    obtain ⟨_, hnode⟩ := HashState.rule_of_edgeKey hkey
    obtain ⟨_, hresolving⟩ := HashState.resolving_of_rule hnode
    rw [hresolving] at hd
    cases hd
  · intro hsome
    obtain ⟨d, hd⟩ := Option.ne_none_iff_exists'.mp hsome
    exact ⟨d, by rw [HashState.resolveByName, hd]⟩

/-- A label that is given a source had none, and its edge was not followed. -/
theorem InputPoint.Promotes.unfollowed {point : InputPoint D} {d : D}
    (h : point.Promotes context d)
    (hresolved : (point.resolved context).2 = point.state.resolveByName
      (point.encodedInput context) (point.inputLabel context) point.path) :
    (point.state.rules.find (point.inputLabel context)).source = none ∧
      point.Unfollowed context := by
  obtain ⟨hnone, hself, -⟩ := h
  have hsource : (point.state.rules.find (point.inputLabel context)).source = none := by
    by_contra hsome
    obtain ⟨d', hd'⟩ := (source_iff hresolved).mpr hsome
    exact hnone d' hd'
  exact ⟨hsource, (unfollowed_iff hresolved hsource).mpr hself⟩

theorem inputStep_point (visit : HashContext.Visit D) (point : InputPoint D)
    (builder : TargetDigestBuilder) :
    context.inputStep visit point.node point.path (point.state, builder) point.input =
      context.feedInput visit point.node.rule.name point.path (point.inputLabel context)
        (point.resolved context).1 (builder.direct (utf8 (point.encodedInput context)))
        (point.resolved context).2 :=
  rfl

omit [HashFunction D] in
theorem inputEdge_point (point : InputPoint D) (builder : TargetDigestBuilder) :
    context.inputEdge point.node point.path (point.state, builder) point.input =
      match (point.resolved context).2 with
      | some (.rule dependency target prior) =>
          if dependency = point.node.rule.name ∨
              (prior.or (((point.resolved context).1.digests[target]?).map (·.overall))).isSome then
            none
          else some ⟨target, dependency = point.encodedInput context, (point.resolved context).1⟩
      | _ => none :=
  rfl

end Points

/-! ## What a run keeps -/

/-- A property of the table that every promotion of a run keeps. -/
structure KeptBy (prepared : Prepared D) (I : HashState D → Prop) : Prop where
  rules : ∀ {state state' : HashState D}, state'.rules = state.rules → I state → I state'
  promote : ∀ {point : InputPoint D} {d : D}, prepared.Reaches point →
    point.Promotes prepared.context d → I point.state →
    I (point.state.setSource (point.inputLabel prepared.context) d)

namespace KeptBy

variable {prepared : Prepared D} {I : HashState D → Prop}

omit [HashFunction D] in
/-- A rule that is finished is not visited. -/
theorem visitOverall {visit : HashContext.Visit D} {path : List String} {state : HashState D}
    (hstate : I state) {name : String} {prior : Option D}
    (hvisit : (prior.or ((state.digests[name]?).map (·.overall))).isSome = false →
      Ensures (fun done => I done.1) (visit name path state)) :
    Ensures (fun done => I done.1) (HashContext.visitOverall visit path state name prior) := by
  rw [HashContext.visitOverall]
  cases hdone : prior.or ((state.digests[name]?).map (·.overall)) with
  | some d => exact Ensures.ok hstate
  | none =>
      rw [hdone] at hvisit
      have hresult := hvisit rfl
      generalize visit name path state = result at hresult
      cases result with
      | error failure => exact Ensures.error failure
      | ok done => exact Ensures.ok (hresult done rfl)

/-- One input keeps the property, if the visit along its edge does. -/
theorem inputStep (h : KeptBy prepared I) {visit : HashContext.Visit D} {point : InputPoint D}
    (hreaches : prepared.Reaches point) {builder : TargetDigestBuilder} (hstate : I point.state)
    (hvisit : ∀ edge,
      prepared.context.inputEdge point.node point.path (point.state, builder) point.input =
        some edge → I edge.state →
      Ensures (fun done => I done.1) (visit edge.target point.path edge.state)) :
    Ensures (fun next => I next.1)
      (prepared.context.inputStep visit point.node point.path (point.state, builder)
        point.input) := by
  have hrules : (point.resolved prepared.context).1.rules = point.state.rules :=
    point.resolved_rules
  have hnext : I (point.resolved prepared.context).1 := h.rules hrules hstate
  rw [inputStep_point, HashContext.feedInput]
  rw [inputEdge_point] at hvisit
  split
  · exact Ensures.pure hnext
  · rename_i dependency target prior hfound
    obtain ⟨hrule, hother⟩ := Option.filter_eq_some_iff.mp hfound
    rw [hrule] at hvisit
    dsimp only at hvisit
    refine Ensures.bind (P := fun done => I done.1) ?_ fun done hdone => Ensures.pure hdone
    refine visitOverall hnext fun hpending => ?_
    have hopen : ¬ (dependency = point.node.rule.name ∨
        (prior.or (((point.resolved prepared.context).1.digests[target]?).map
          (·.overall))).isSome = true) := by
      rw [hpending]
      rintro (hself | hsome)
      · exact of_decide_eq_true hother hself
      · cases hsome
    rw [if_neg hopen] at hvisit
    exact hvisit _ rfl hnext
  · rename_i hfound
    intro next hrun
    obtain ⟨found, hfile, hrun⟩ := bind_eq_ok hrun
    cases found with
    | none =>
        cases hrun
        exact hnext
    | some d =>
        cases hrun
        have hpromotes : point.Promotes prepared.context d := by
          refine ⟨fun d' hd' => ?_, fun dependency node prior hrule => ?_, hfile⟩
          · rw [hd'] at hfound
            simp [Option.filter] at hfound
          · rw [hrule] at hfound
            by_contra hother
            simp [Option.filter, hother] at hfound
        refine h.rules ?_ (h.promote hreaches hpromotes hstate)
        rw [HashState.setSource, HashState.setSource, hrules]

/-- A label of the visibility keeps the property, if the visit along its edge does. -/
theorem visibilityStep {context : HashContext D} {visit : HashContext.Visit D}
    {canonicalKey : String} {path : List String} {fed : HashState D × TargetDigestBuilder}
    {packageGroup : String} (hstate : I fed.1)
    (hvisit : ∀ edge, context.visibilityEdge canonicalKey fed packageGroup = some edge →
      I edge.state → Ensures (fun done => I done.1) (visit edge.target path edge.state)) :
    Ensures (fun next => I next.1)
      (context.visibilityStep visit canonicalKey path fed packageGroup) := by
  obtain ⟨state, builder⟩ := fed
  rw [HashContext.visibilityStep_eq]
  rw [HashContext.visibilityEdge] at hvisit
  dsimp only at hvisit
  split_ifs with hself
  · exact Ensures.ok hstate
  · rw [if_neg hself] at hvisit
    cases hgroup : context.groupOf state packageGroup with
    | none => exact Ensures.ok hstate
    | some group =>
        rw [hgroup, Option.bind_some] at hvisit
        refine Ensures.bind (P := fun done => I done.1) ?_ fun done hdone => Ensures.pure hdone
        refine visitOverall hstate fun hpending => ?_
        rw [hpending] at hvisit
        exact hvisit _ rfl hstate

/-- The loops of a call keep the property up to any item, if the calls inside do. -/
theorem loops (h : KeptBy prepared I) {fuel : Nat} {name : String} {path : List String}
    {state : HashState D} {exact : Bool} {node : RuleNode D}
    (hcall : prepared.Calls ⟨fuel + 1, name, path, state, exact⟩)
    (henter : Enters prepared.context name path state node) (hstate : I state)
    (hinner : ∀ name path state exact, prepared.Calls ⟨fuel, name, path, state, exact⟩ → I state →
      Ensures (fun done => I done.1) (prepared.context.nodeDigest fuel name path state))
    {start : HashState D × TargetDigestBuilder} {inputs : List String}
    (hstart : prepared.context.enterStart state node = .ok (start, inputs)) :
    (∀ before after, inputs.zipIdx = before ++ after →
      Ensures (fun fed => I fed.1)
        (before.foldlM (prepared.context.inputStep (prepared.context.nodeDigest fuel) node
          (node.rule.name :: path)) start)) ∧
    ∀ done, inputs.zipIdx.foldlM (prepared.context.inputStep (prepared.context.nodeDigest fuel)
        node (node.rule.name :: path)) start = .ok done →
      ∀ before after, prepared.context.visibilityOf node.rule = before ++ after →
        Ensures (fun fed => I fed.1)
          (before.foldlM (prepared.context.visibilityStep (prepared.context.nodeDigest fuel)
            node.rule.name (node.rule.name :: path)) done) := by
  have hfirst : I start.1 := h.rules (HashContext.enterStart_rules hstart).1 hstate
  have hinputs : ∀ before after, inputs.zipIdx = before ++ after →
      Ensures (fun fed => I fed.1)
        (before.foldlM (prepared.context.inputStep (prepared.context.nodeDigest fuel) node
          (node.rule.name :: path)) start) := by
    intro before after hsplit
    refine Ensures.foldlM_prefix (Q := fun fed : HashState D × TargetDigestBuilder => I fed.1) ?_
      hfirst
    intro earlier item later hbefore fed hfed hkept
    have hitems : inputs.zipIdx = earlier ++ item :: (later ++ after) := by
      rw [hsplit, hbefore, List.append_assoc]
      rfl
    have hreached : prepared.Reaches ⟨node, node.rule.name :: path, fed.1, item⟩ :=
      ⟨fuel, name, path, state, exact, start, inputs, earlier, later ++ after, fed, hcall, henter,
        hstart, hitems, hfed, rfl, rfl⟩
    exact h.inputStep hreached hkept fun edge hedge hedgeState =>
      hinner _ _ _ _ (.input hcall henter hstart hitems hfed hedge) hedgeState
  refine ⟨hinputs, fun done hdone before after hsplit => ?_⟩
  have hloop : I done.1 := hinputs inputs.zipIdx [] (List.append_nil _).symm done hdone
  refine Ensures.foldlM_prefix (Q := fun fed : HashState D × TargetDigestBuilder => I fed.1) ?_
    hloop
  intro earlier packageGroup later hbefore fed hfed hkept
  have hitems : prepared.context.visibilityOf node.rule =
      earlier ++ packageGroup :: (later ++ after) := by
    rw [hsplit, hbefore, List.append_assoc]
    rfl
  exact visibilityStep hkept fun edge hedge hedgeState =>
    hinner _ _ _ _ (.visibility hcall henter hstart hdone hitems hfed hedge) hedgeState

/-- A call keeps the property. -/
theorem nodeDigest (h : KeptBy prepared I) (fuel : Nat) : ∀ name path state exact,
    prepared.Calls ⟨fuel, name, path, state, exact⟩ → I state →
      Ensures (fun done => I done.1) (prepared.context.nodeDigest fuel name path state) := by
  induction fuel with
  | zero =>
      intro name path state exact _ _
      exact Ensures.error _
  | succ fuel ih =>
      intro name path state exact hcall hstate
      rw [HashContext.nodeDigest, HashContext.nodeStep]
      cases hdigest : state.digests[name]? with
      | some d => exact Ensures.ok hstate
      | none =>
          cases hnode : prepared.context.nodes[name]? with
          | none => exact Ensures.error _
          | some node =>
              dsimp only
              split_ifs with hpath
              · exact Ensures.ok hstate
              · have henter : Enters prepared.context name path state node :=
                  ⟨hdigest, hnode, hpath⟩
                rw [HashContext.enterNode_eq]
                intro result hrun
                obtain ⟨⟨start, inputs⟩, hstart, hrun⟩ := bind_eq_ok hrun
                obtain ⟨done, hdone, hrun⟩ := bind_eq_ok hrun
                obtain ⟨fed, hfed, hrun⟩ := bind_eq_ok hrun
                cases hrun
                have hlast : I fed.1 := (h.loops hcall henter hstate ih hstart).2 done hdone _ []
                  (List.append_nil _).symm fed hfed
                exact h.rules (by rfl) hlast

/-- Targets keep the property. -/
theorem targets (h : KeptBy prepared I) (hstart : I prepared.state) {before after : List HashTarget}
    (hsplit : prepared.targets = before ++ after) :
    Ensures (fun done => I done.1)
      (before.foldlM (hashTargetStep prepared.context) (prepared.state, [])) := by
  refine Ensures.foldlM_prefix (Q := fun done : HashState D × List (KeyedDigest D) => I done.1) ?_
    hstart
  intro earlier item later hbefore fed hfed hkept
  have hitems : prepared.targets = earlier ++ item :: (later ++ after) := by
    rw [hsplit, hbefore, List.append_assoc]
    rfl
  have hrule : ∀ key, item.ruleKey = some key →
      Ensures (fun done => I done.1) (prepared.context.ruleDigest fed.1 key) := by
    intro key hkey
    rw [HashContext.ruleDigest_eq]
    cases hprior : fed.1.prior (fed.1.rules.find key) with
    | some d => exact Ensures.ok hkept
    | none =>
        cases hname : (fed.1.rules.find key).rule with
        | none => exact nofun
        | some name =>
            exact h.nodeDigest _ name [] fed.1 true (.target hitems hfed hkey hprior hname) hkept
  refine Ensures.bind (P := fun done => I done.1) ?_ fun done hdone => Ensures.pure hdone
  cases item with
  | rule key => exact Ensures.bind (hrule key rfl) fun done hdone => Ensures.pure hdone
  | generated name generatingRule =>
      exact Ensures.bind (hrule generatingRule rfl) fun done hdone => Ensures.pure hdone
  | source label => exact Ensures.ok hkept

/-- Every call of a run is made in a state with the property. -/
theorem calls (h : KeptBy prepared I) (hstart : I prepared.state) {call : Call D}
    (hcall : prepared.Calls call) : I call.state := by
  induction hcall with
  | target hsplit hdone hkey hprior hname => exact h.targets hstart hsplit _ hdone
  | @input fuel name path state exact node start fed inputs before after item edge hcall henter
      hstart hsplit hfed hedge ih =>
      have hkept := (h.loops hcall henter ih (h.nodeDigest fuel) hstart).1 before (item :: after)
        hsplit fed hfed
      let point : InputPoint D := ⟨node, node.rule.name :: path, fed.1, item⟩
      have hstate : edge.state = (point.resolved prepared.context).1 := by
        have hpoint : prepared.context.inputEdge point.node point.path (point.state, fed.2)
            point.input = some edge := hedge
        rw [inputEdge_point] at hpoint
        split at hpoint
        · split_ifs at hpoint
          rw [← Option.some.inj hpoint]
        · cases hpoint
      exact h.rules (by rw [hstate, point.resolved_rules]) hkept
  | @visibility fuel name path state exact node start done fed inputs before after packageGroup edge
      hcall henter hstart hdone hsplit hfed hedge ih =>
      have hkept := (h.loops hcall henter ih (h.nodeDigest fuel) hstart).2 done hdone before
        (packageGroup :: after) hsplit fed hfed
      rw [(visibilityEdge_ok hedge).1]
      exact hkept

/-- Every input of a run is resolved in a state with the property. -/
theorem reaches (h : KeptBy prepared I) (hstart : I prepared.state) {point : InputPoint D}
    (hreaches : prepared.Reaches point) : I point.state := by
  obtain ⟨fuel, name, path, state, exact, start, inputs, before, after, fed, hcall, henter, hfirst,
    hsplit, hfed, -, hstate⟩ := hreaches
  rw [hstate]
  exact (h.loops hcall henter (h.calls hstart hcall) (h.nodeDigest fuel) hfirst).1 before
    (point.input :: after) hsplit fed hfed

end KeptBy

/-! ## The start of a run -/

omit [HashFunction D] in
/-- The records alone give no label a source. -/
theorem source_takeIn (targets : List Target) (digests : PreparedRules D)
    (recorder : Option RecipeRecorder) (label : String) :
    ((takeIn targets digests recorder).rules.find label).source = none := by
  rw [takeIn]
  refine List.foldlRecOn (motive := fun intake : Intake D =>
    (intake.rules.find label).source = none) targets Intake.add ?_ ?_
  · dsimp only
    rw [SlotTable.find_fill]
    rfl
  · intro intake h target _
    rw [Intake.add]
    split
    · cases target.rule with
      | none => exact h
      | some rule =>
          rw [Option.map_some, Option.getD_some, Intake.addRule]
          dsimp only
          split
          · rw [SlotTable.find_update]
            split_ifs with heq
            · rw [heq]
              exact h
            · exact h
          · exact h
    · cases target.generatedFile with
      | none => exact h
      | some file => exact h
    · cases target.sourceFile with
      | none => exact h
      | some source => exact h
    · exact h

/-- The sources of a graph are the source targets it was given digests for. -/
theorem source_graph (targets : List Target) (digests : PreparedRules D)
    (recorder : Option RecipeRecorder) (environment : Environment D) (options : HashOptions)
    (sources : List (String × D)) (label : String) :
    (((takeIn targets digests recorder).graph environment options sources).rules.find
      label).source.isSome = true ↔ label ∈ sources.map (·.1) := by
  have hsources : ∀ (sources : List (String × D)) (graph : Graph D),
      ((sources.foldl (fun graph source => graph.addSource source.1 source.2) graph).rules.find
        label).source.isSome = true ↔
      (graph.rules.find label).source.isSome = true ∨ label ∈ sources.map (·.1) := by
    intro sources
    induction sources with
    | nil => simp
    | cons source rest ih =>
        intro graph
        rw [List.foldl_cons, ih, Graph.addSource]
        dsimp only
        rw [SlotTable.find_update]
        by_cases heq : source.1 = label
        · simp [heq]
        · simp [heq, Ne.symm heq]
  have hdecoded : ∀ (rules : List Rule) (graph : Graph D),
      ((rules.foldl (·.addDecoded environment options) graph).rules.find label).source =
        (graph.rules.find label).source := by
    intro rules
    induction rules with
    | nil => exact fun _ => rfl
    | cons rule rest ih =>
        intro graph
        rw [List.foldl_cons, ih, Graph.addDecoded]
        dsimp only
        rw [SlotTable.find_update]
        split_ifs with heq
        · rw [heq]
        · rfl
  rw [Intake.graph, hdecoded, hsources, source_takeIn]
  simp

omit [HashFunction D] in
/-- Aliases give no label a source. -/
theorem aliasTargets_source (rules : Labels D) (recorder : Option RecipeRecorder)
    (targets : List HashTarget) (label : String) :
    Ensures (fun aliasing : Aliasing D =>
      (aliasing.rules.find label).source = (rules.find label).source)
      (aliasTargets rules recorder targets) := by
  apply Ensures.foldlM
  · intro target htarget aliasing h
    cases target with
    | rule name => exact Ensures.ok h
    | source name => exact Ensures.ok h
    | generated name generatingRule =>
        intro aliasing' hadd
        obtain ⟨node, hrules, -⟩ := Aliasing.add_ok hadd
        rw [hrules, SlotTable.find_update]
        split_ifs with heq
        · rw [← h, ← heq]
          rfl
        · exact h
  · rfl

section Start

variable {options : HashOptions} {targets : List Target} {digests : PreparedRules D}
  {environment : Environment D} {prepared : Prepared D}

/-- A run starts with the sources of the query result and no others, and with good positions. -/
theorem start_sources (h : prepareTargets options targets digests environment = .ok prepared) :
    prepared.context.PositionsOk prepared.state ∧
      ∀ label, (prepared.state.rules.find label).source.isSome = true ↔
        NamesSource targets label := by
  obtain ⟨seedHash, seeds, sources, graph, aliasing, -, -, hsources, hgraph, halias, hcontext,
    hrules, -⟩ := prepareTargets_ok h
  constructor
  · rw [hcontext]
    refine positionsOk_runContext (positionsOk_prepare ((foldIsolatedRoot_ok hgraph).2
      (unprepared_takeIn targets digests _ environment options sources)) environment options _) ?_
      options environment seedHash seeds
    intro key id hid
    rw [prepare_rules] at hid
    rw [hrules]
    exact aliasTargets_ids graph.rules _ _ aliasing halias key id hid
  · intro label
    rw [hrules, aliasTargets_source graph.rules _ _ label aliasing halias,
      (foldIsolatedRoot_ok hgraph).1, queryGraph, source_graph, digestSources_names _ _ _ _ hsources]
    rfl

/-- Every input of a run is resolved by name. -/
theorem resolved_of_reaches
    (h : prepareTargets options targets digests environment = .ok prepared) {point : InputPoint D}
    (hreaches : prepared.Reaches point) :
    (point.resolved prepared.context).2 = point.state.resolveByName
      (point.encodedInput prepared.context) (point.inputLabel prepared.context) point.path := by
  have hkept : KeptBy prepared prepared.context.PositionsOk := by
    refine ⟨fun hrules hpositions name node ids hnode hids i id hid => ?_,
      fun _ _ hpositions => hpositions.setSource _ _⟩
    rw [hrules]
    exact hpositions hnode hids hid
  have hpositions := hkept.reaches (start_sources h).1 hreaches
  obtain ⟨fuel, name, path, state, exact, start, inputs, before, after, fed, -, henter, hfirst,
    hsplit, -, -, -⟩ := hreaches
  obtain ⟨-, more, hmore⟩ := HashContext.enterStart_rules hfirst
  have hmem : point.input ∈ (prepared.context.inputsOf point.node ++ more).zipIdx := by
    rw [← hmore, hsplit]
    exact List.mem_append_right _ List.mem_cons_self
  exact InputPoint.resolved_eq hpositions henter.node hmem

/-- A label of a rule or a generated file has a source only if it is also that of a source
file, and all source files have one. -/
structure Guarded (targets : List Target) (state : HashState D) : Prop where
  built : ∀ label, NamesBuilt targets label → ¬ NamesSource targets label →
    (state.rules.find label).source = none
  sources : ∀ label, NamesSource targets label → (state.rules.find label).source ≠ none

/-- Without files behind rules, a run keeps the sources of the query result apart. -/
theorem guarded_kept (h : prepareTargets options targets digests environment = .ok prepared)
    (hclean : ∀ point, prepared.Reaches point → point.NoFileBehind prepared.context targets) :
    KeptBy prepared (Guarded targets) := by
  refine ⟨fun hrules hguard => ⟨fun label => ?_, fun label => ?_⟩, ?_⟩
  · rw [hrules]
    exact hguard.built label
  · rw [hrules]
    exact hguard.sources label
  · intro point d hreaches hpromotes hguard
    obtain ⟨hnone, hunfollowed⟩ := hpromotes.unfollowed (resolved_of_reaches h hreaches)
    have hsource : ¬ NamesSource targets (point.inputLabel prepared.context) :=
      fun hsource => hguard.sources _ hsource hnone
    have hbuilt : ¬ NamesBuilt targets (point.inputLabel prepared.context) :=
      fun hbuilt => hclean point hreaches hbuilt hsource hunfollowed d hpromotes.2.2
    refine ⟨fun label hlabel hother => ?_, fun label hlabel => ?_⟩
    · have hne : point.inputLabel prepared.context ≠ label := by
        rintro rfl
        exact hbuilt hlabel
      rw [HashState.find_setSource, if_neg hne]
      exact hguard.built label hlabel hother
    · rw [HashState.find_setSource]
      split_ifs
      · exact Option.some_ne_none d
      · exact hguard.sources label hlabel

/-- A run takes no rule for a file, and gives files to labels outside the query result only,
exactly when none of its edges to a rule that are not followed finds a file of its label. -/
theorem ruleNotFile_iff (h : prepareTargets options targets digests environment = .ok prepared) :
    (∀ point, prepared.Reaches point → point.RuleNotFile prepared.context targets) ↔
      ∀ point, prepared.Reaches point → point.NoFileBehind prepared.context targets := by
  constructor
  · intro hnever point hreaches hbuilt hother hunfollowed d hfile
    have hresolved := resolved_of_reaches h hreaches
    obtain ⟨hfiles, hpromoted⟩ := hnever point hreaches
    have hnone : (point.state.rules.find (point.inputLabel prepared.context)).source = none := by
      by_contra hsome
      obtain ⟨d', hd'⟩ := (InputPoint.source_iff hresolved).mpr hsome
      exact hfiles hbuilt hother d' hd'
    have hpromotes : point.Promotes prepared.context d :=
      ⟨hfiles hbuilt hother, (InputPoint.unfollowed_iff hresolved hnone).mp hunfollowed, hfile⟩
    exact (hpromoted d hpromotes).1 hbuilt
  · intro hclean point hreaches
    have hresolved := resolved_of_reaches h hreaches
    have hstart : Guarded targets prepared.state := by
      have hsources := (start_sources h).2
      refine ⟨fun label _ hother => ?_, fun label hsource => ?_⟩
      · simpa [← hsources] using hother
      · exact Option.isSome_iff_ne_none.mp ((hsources label).mpr hsource)
    have hguard := (guarded_kept h hclean).reaches hstart hreaches
    refine ⟨fun hbuilt hother d hd => ?_, fun d hpromotes => ?_⟩
    · exact (InputPoint.source_iff hresolved).mp ⟨d, hd⟩ (hguard.built _ hbuilt hother)
    · obtain ⟨hnone, hunfollowed⟩ := hpromotes.unfollowed hresolved
      have hother : ¬ NamesSource targets (point.inputLabel prepared.context) :=
        fun hsource => hguard.sources _ hsource hnone
      exact ⟨fun hbuilt => hclean point hreaches hbuilt hother hunfollowed d hpromotes.2.2, hother⟩

end Start

/-- Two rules that depend on each other's label, the second on an instance of the first that is
not in the result, and a rule that depends on the instance that is. -/
def shadowedTargets : List Target :=
  [{ type := .rule
     rule := some { name := "//:a|1", ruleClass := "r"
                    configuredRuleInput := [⟨some "//:b", some "1"⟩] } },
   { type := .rule
     rule := some { name := "//:b|1", ruleClass := "r"
                    configuredRuleInput := [⟨some "//:a", some "2"⟩] } },
   { type := .rule
     rule := some { name := "//:c|1", ruleClass := "r"
                    configuredRuleInput := [⟨some "//:a", some "1"⟩] } }]

/-- A workspace with the one file `a`. -/
def oneFileEnvironment : Environment Preimage :=
  { Environment.bare with
    disk :=
      { metadata := fun path =>
          if path = "/w/a" then .ok { isFile := true, isDir := false, ownerExecutable := false }
          else .error .notFound
        read := fun _ => .ok [7]
        walk := fun _ => .ok [] } }

/-- The options of a `cquery` in the workspace `/w`. -/
def shadowedOptions : HashOptions :=
  { bazel := { useCquery := true, workspace := "/w" } }

def Input.isSource : Input D → Bool
  | .source _ => true
  | .rule _ _ _ => false

/-- The edge from the second rule is dropped, the file `a` becomes the source of the label, and
the third rule takes the rule it depends on for that file. -/
theorem rule_resolved_as_file : ∃ prepared : Prepared Preimage,
    prepareTargets shadowedOptions shadowedTargets SlotTable.empty oneFileEnvironment =
      .ok prepared ∧
    ∃ point, prepared.Reaches point ∧
      NamesBuilt shadowedTargets (point.inputLabel prepared.context) ∧
      ¬ NamesSource shadowedTargets (point.inputLabel prepared.context) ∧
      ∃ d, (point.resolved prepared.context).2 = some (.source d) := by
  have hshape : (do
      let prepared ← prepareTargets shadowedOptions shadowedTargets SlotTable.empty
        oneFileEnvironment
      let done ← [HashTarget.rule "//:a|1", .rule "//:b|1"].foldlM
        (hashTargetStep prepared.context) (prepared.state, [])
      let node ← okOr "node" prepared.context.nodes["//:c|1"]?
      let start ← prepared.context.enterStart done.1 node
      let point : InputPoint Preimage :=
        ⟨node, [node.rule.name], start.1.1, ("//:a|1", 0)⟩
      return (prepared.targets, (start.2, point.inputLabel prepared.context,
        (done.1.rules.find "//:c|1").rule),
        ((point.resolved prepared.context).2.any Input.isSource,
          (done.1.prior (done.1.rules.find "//:c|1")).isNone,
          (done.1.digests["//:c|1"]?).isNone))) =
      .ok ([.rule "//:a|1", .rule "//:b|1", .rule "//:c|1"],
        (["//:a|1"], "//:a", some "//:c|1"), (true, true, true)) := by
    decide +kernel
  obtain ⟨prepared, hprepared, hshape⟩ := bind_eq_ok hshape
  obtain ⟨done, hdone, hshape⟩ := bind_eq_ok hshape
  obtain ⟨node, hnode, hshape⟩ := bind_eq_ok hshape
  obtain ⟨start, hstart, hshape⟩ := bind_eq_ok hshape
  obtain ⟨htargets, hshape⟩ := Prod.mk.inj (Except.ok.inj hshape)
  obtain ⟨hnames, hshape⟩ := Prod.mk.inj hshape
  obtain ⟨hinputs, hnames⟩ := Prod.mk.inj hnames
  obtain ⟨hlabel, hrule⟩ := Prod.mk.inj hnames
  obtain ⟨hfile, hshape⟩ := Prod.mk.inj hshape
  obtain ⟨hprior, hpending⟩ := Prod.mk.inj hshape
  have hcall : prepared.Calls ⟨prepared.context.nodes.size + 1, "//:c|1", [], done.1, true⟩ :=
    @Prepared.Calls.target _ _ prepared [.rule "//:a|1", .rule "//:b|1"] [] (.rule "//:c|1")
      "//:c|1" "//:c|1" done htargets hdone rfl (Option.isNone_iff_eq_none.mp hprior) hrule
  refine ⟨prepared, hprepared, ⟨node, [node.rule.name], start.1.1, ("//:a|1", 0)⟩, ?_, ?_, ?_, ?_⟩
  · refine ⟨_, "//:c|1", [], done.1, true, start.1, start.2, [], [], start.1, hcall,
      ⟨Option.isNone_iff_eq_none.mp hpending, okOr_eq_ok hnode, List.not_mem_nil⟩, hstart, ?_, rfl,
      rfl, rfl⟩
    rw [hinputs]
    rfl
  · rw [hlabel]
    decide +kernel
  · rw [hlabel]
    decide +kernel
  · revert hfile
    generalize (InputPoint.resolved prepared.context
      ⟨node, [node.rule.name], start.1.1, ("//:a|1", 0)⟩).2 = resolved
    intro hfile
    match resolved, hfile with
    | some (.source d), _ => exact ⟨d, rfl⟩

/-- An empty workspace has no file behind any label. -/
theorem softDigest_bare (options : HashOptions) (htree : options.partialTree = none)
    (label : String) (d : Preimage) :
    (Environment.bare.sourceHasher options).softDigest label ≠ .ok (some d) := by
  intro hfile
  rw [SourceHasher.softDigest] at hfile
  split_ifs at hfile
  · cases hfile
  · have hnone : (Environment.bare.sourceHasher options).tree = none := htree
    rw [hnone] at hfile
    obtain ⟨resolved, -, hfile⟩ := bind_eq_ok hfile
    cases resolved with
    | none => cases hfile
    | some found => cases hfile

/-- The same rules in a workspace without files: every edge is resolved to a rule or dropped. -/
theorem ruleNotFile_shadowed : ∃ prepared : Prepared Preimage,
    prepareTargets shadowedOptions shadowedTargets SlotTable.empty Environment.bare =
      .ok prepared ∧
    ∀ point, prepared.Reaches point → point.RuleNotFile prepared.context shadowedTargets := by
  have hok : (prepareTargets shadowedOptions shadowedTargets SlotTable.empty
      Environment.bare).toBool = true := by
    decide +kernel
  cases hprepared : prepareTargets shadowedOptions shadowedTargets SlotTable.empty
      Environment.bare with
  | error failure =>
      rw [hprepared] at hok
      cases hok
  | ok prepared =>
      refine ⟨prepared, rfl, (ruleNotFile_iff hprepared).mpr fun point _ _ _ _ d hfile => ?_⟩
      obtain ⟨seedHash, seeds, sources, graph, aliasing, -, -, -, -, -, hcontext, -⟩ :=
        prepareTargets_ok hprepared
      rw [hcontext] at hfile
      exact softDigest_bare shadowedOptions rfl _ d hfile

end BazelDiff
