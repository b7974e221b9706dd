/-
# The fallback and cycles

Under `cquery` an input names one configured instance. When that instance is not in the
result the edge falls back to another instance of the label, unless the replacement is on
the path being hashed. What the replacement leads to is not checked, so a run over an
acyclic graph can still meet a rule that is being hashed. The calls a run makes are a
relation beside the traversal; a back edge is a call of a rule on the path.
-/

import Mathlib.Logic.Relation
import BazelDiff.Hash.Start
import BazelDiff.Hash.Walk

namespace BazelDiff

open Text HashFunction Outcome

variable {D : Type} [HashFunction D]

/-! ## The edges a visit follows -/

/-- An edge that leads to an unfinished rule. -/
structure Edge (D : Type) where
  target : String
  /-- Whether the edge leads to the instance its input names. -/
  exact : Bool
  state : HashState D

namespace HashContext

variable (context : HashContext D)

/-- What comes before the loops of a visit: the first contributions, and the inputs. -/
def enterStart (state : HashState D) (node : RuleNode D) :
    Result ((HashState D × TargetDigestBuilder) × List String) := do
  let (state, builder) ← context.startDigest state node
  match node.prepared.sharedInputs with
  | none => return ((state, builder), context.inputsOf node)
  | some group =>
      match applyRepositoryInputs state group builder with
      | some fed => return (fed, context.inputsOf node)
      | none => return ((state, builder), context.inputsOf node ++ group.labels)

theorem enterNode_eq (visit : Visit D) (node : RuleNode D) (path : List String)
    (state : HashState D) :
    context.enterNode visit node path state = (do
      let start ← context.enterStart state node
      let fed ← start.2.zipIdx.foldlM (context.inputStep visit node (node.rule.name :: path)) start.1
      let fed ← (context.visibilityOf node.rule).foldlM
        (context.visibilityStep visit node.rule.name (node.rule.name :: path)) fed
      return finishNode fed.1 node.rule.name fed.2) := by
  rw [enterNode, enterStart]
  dsimp only
  cases context.startDigest state node with
  | error failure => rfl
  | ok fed =>
      cases node.prepared.sharedInputs with
      | none => rfl
      | some group =>
          cases happly : applyRepositoryInputs fed.1 group fed.2 with
          | none =>
              simp only [bind, Except.bind, happly]
              rfl
          | some fed =>
              simp only [bind, Except.bind, happly]
              rfl

/-- The edge of an input, when it leads to a rule that is neither finished nor the rule
itself. -/
def inputEdge (node : RuleNode D) (path : List String) (fed : HashState D × TargetDigestBuilder)
    (input : String × Nat) : Option (Edge D) :=
  let view := extensionView fed.1 (context.extensionOf node.rule) input.1
  let inputSlot :=
    if view.isSome then none
    else node.inputPositions.bind fun ids => (ids[input.2]?).getD none
  let encodedInput := view.getD input.1
  let (state, resolved) :=
    fed.1.resolveInput encodedInput (targetLabel encodedInput) inputSlot path
  match resolved with
  | some (.rule dependency target prior) =>
      if dependency = node.rule.name ∨
          (prior.or ((state.digests[target]?).map (·.overall))).isSome then none
      else some ⟨target, dependency = encodedInput, state⟩
  | _ => none

/-- The edge of a label of the visibility. -/
def visibilityEdge (canonicalKey : String) (fed : HashState D × TargetDigestBuilder)
    (packageGroup : String) : Option (Edge D) :=
  if packageGroup = targetLabel canonicalKey then none
  else
    (context.groupOf fed.1 packageGroup).bind fun group =>
      if (((fed.1.completed (fed.1.rules.find packageGroup) packageGroup).map (·.overall)).or
          ((fed.1.digests[group]?).map (·.overall))).isSome then none
      else some ⟨group, false, fed.1⟩

omit [HashFunction D] in
theorem visitOverall_congr {visit visit' : Visit D} {path : List String} {state : HashState D}
    {node : String} {prior : Option D}
    (h : (prior.or ((state.digests[node]?).map (·.overall))).isSome = false →
      visit node path state = visit' node path state) :
    visitOverall visit path state node prior = visitOverall visit' path state node prior := by
  rw [visitOverall, visitOverall]
  cases hdone : prior.or ((state.digests[node]?).map (·.overall)) with
  | some d => rfl
  | none =>
      rw [hdone] at h
      rw [h rfl]

/-- An input is fed through the visit of its edge. -/
theorem inputStep_congr {visit visit' : Visit D} {node : RuleNode D} {path : List String}
    {fed : HashState D × TargetDigestBuilder} {input : String × Nat}
    (h : ∀ edge, context.inputEdge node path fed input = some edge →
      visit edge.target path edge.state = visit' edge.target path edge.state) :
    context.inputStep visit node path fed input = context.inputStep visit' node path fed input := by
  rw [inputStep, inputStep]
  rw [inputEdge] at h
  dsimp only at h ⊢
  generalize extensionView fed.1 (context.extensionOf node.rule) input.1 = view at h ⊢
  generalize (if view.isSome then none
    else node.inputPositions.bind fun ids => (ids[input.2]?).getD none) = slot at h ⊢
  generalize fed.1.resolveInput (view.getD input.1) (targetLabel (view.getD input.1)) slot path =
    resolved at h ⊢
  obtain ⟨state, found⟩ := resolved
  dsimp only at h ⊢
  rw [feedInput, feedInput]
  split
  · rfl
  · rename_i dependency target prior hfound
    obtain ⟨rfl, hother⟩ := Option.filter_eq_some_iff.mp hfound
    dsimp only at h
    have hsame : visitOverall visit path state target prior =
        visitOverall visit' path state target prior := by
      apply visitOverall_congr
      intro hpending
      have hopen : ¬ (dependency = node.rule.name ∨
          (prior.or ((state.digests[target]?).map (·.overall))).isSome = true) := by
        rw [hpending]
        rintro (hself | hdone)
        · exact of_decide_eq_true hother hself
        · cases hdone
      rw [if_neg hopen] at h
      exact h _ rfl
    rw [hsame]
  · rfl

/-- A label of the visibility is fed through the visit of its edge. -/
theorem visibilityStep_congr {visit visit' : Visit D} {canonicalKey : String} {path : List String}
    {fed : HashState D × TargetDigestBuilder} {packageGroup : String}
    (h : ∀ edge, context.visibilityEdge canonicalKey fed packageGroup = some edge →
      visit edge.target path edge.state = visit' edge.target path edge.state) :
    context.visibilityStep visit canonicalKey path fed packageGroup =
      context.visibilityStep visit' canonicalKey path fed packageGroup := by
  obtain ⟨state, builder⟩ := fed
  rw [visibilityStep_eq, visibilityStep_eq]
  rw [visibilityEdge] at h
  dsimp only at h
  by_cases hself : packageGroup = targetLabel canonicalKey
  · rw [if_pos hself, if_pos hself]
  · rw [if_neg hself, if_neg hself]
    rw [if_neg hself] at h
    cases hgroup : context.groupOf state packageGroup with
    | none => rfl
    | some group =>
        rw [hgroup, Option.bind_some] at h
        dsimp only
        have hsame : visitOverall visit path state group
            ((state.completed (state.rules.find packageGroup) packageGroup).map (·.overall)) =
            visitOverall visit' path state group
              ((state.completed (state.rules.find packageGroup) packageGroup).map (·.overall)) := by
          apply visitOverall_congr
          intro hpending
          rw [hpending] at h
          exact h _ rfl
        rw [hsame]

/-- Entering a rule depends on the visits of its edges only. -/
theorem enterNode_congr {visit visit' : Visit D} {node : RuleNode D} {path : List String}
    {state : HashState D}
    (hinput : ∀ start inputs before item after fed edge,
      context.enterStart state node = .ok (start, inputs) →
      inputs.zipIdx = before ++ item :: after →
      before.foldlM (context.inputStep visit node (node.rule.name :: path)) start = .ok fed →
      context.inputEdge node (node.rule.name :: path) fed item = some edge →
      visit edge.target (node.rule.name :: path) edge.state =
        visit' edge.target (node.rule.name :: path) edge.state)
    (hvisibility : ∀ start inputs done before packageGroup after fed edge,
      context.enterStart state node = .ok (start, inputs) →
      inputs.zipIdx.foldlM (context.inputStep visit node (node.rule.name :: path)) start =
        .ok done →
      context.visibilityOf node.rule = before ++ packageGroup :: after →
      before.foldlM (context.visibilityStep visit node.rule.name (node.rule.name :: path)) done =
        .ok fed →
      context.visibilityEdge node.rule.name fed packageGroup = some edge →
      visit edge.target (node.rule.name :: path) edge.state =
        visit' edge.target (node.rule.name :: path) edge.state) :
    context.enterNode visit node path state = context.enterNode visit' node path state := by
  rw [enterNode_eq, enterNode_eq]
  apply bind_congr_ok
  rintro ⟨start, inputs⟩ hstart
  dsimp only
  have hinputs : inputs.zipIdx.foldlM (context.inputStep visit node (node.rule.name :: path)) start =
      inputs.zipIdx.foldlM (context.inputStep visit' node (node.rule.name :: path)) start := by
    apply foldlM_congr_done
    intro before item after hsplit fed hfed
    apply context.inputStep_congr
    intro edge hedge
    exact hinput start inputs before item after fed edge hstart hsplit hfed hedge
  rw [← hinputs]
  apply bind_congr_ok
  intro done hdone
  have hgroups : (context.visibilityOf node.rule).foldlM (context.visibilityStep visit
      node.rule.name (node.rule.name :: path)) done =
      (context.visibilityOf node.rule).foldlM (context.visibilityStep visit'
        node.rule.name (node.rule.name :: path)) done := by
    apply foldlM_congr_done
    intro before packageGroup after hsplit fed hfed
    apply context.visibilityStep_congr
    intro edge hedge
    exact hvisibility start inputs done before packageGroup after fed edge hstart hdone hsplit hfed
      hedge
  rw [hgroups]

end HashContext

/-! ## The calls of a run -/

/-- A call of the traversal: the depth left, the rule, the path, the state, and whether it
came along an exact edge. -/
structure Call (D : Type) where
  fuel : Nat
  name : String
  path : List String
  state : HashState D
  exact : Bool

/-- The call takes the branch of a rule that is being hashed. -/
def Call.BackEdge (call : Call D) : Prop :=
  call.state.digests[call.name]? = none ∧ call.name ∈ call.path

/-- The call hashes its rule. -/
structure Enters (context : HashContext D) (name : String) (path : List String)
    (state : HashState D) (node : RuleNode D) : Prop where
  pending : state.digests[name]? = none
  node : context.nodes[name]? = some node
  fresh : name ∉ path

/-- The calls a run makes: one for each target whose rule is unfinished, and inside a call one
for each edge of the rule that leads to an unfinished rule. -/
inductive Prepared.Calls (prepared : Prepared D) : Call D → Prop
  | target {before after : List HashTarget} {target : HashTarget} {key name : String}
      {done : HashState D × List (KeyedDigest D)}
      (hsplit : prepared.targets = before ++ target :: after)
      (hdone : before.foldlM (hashTargetStep prepared.context) (prepared.state, []) = .ok done)
      (hkey : target.ruleKey = some key)
      (hprior : done.1.prior (done.1.rules.find key) = none)
      (hname : (done.1.rules.find key).rule = some name) :
      Prepared.Calls prepared ⟨prepared.context.depth, name, [], done.1, true⟩
  | input {fuel : Nat} {name : String} {path : List String} {state : HashState D} {exact : Bool}
      {node : RuleNode D} {start fed : HashState D × TargetDigestBuilder} {inputs : List String}
      {before after : List (String × Nat)} {item : String × Nat} {edge : Edge D}
      (hcall : Prepared.Calls prepared ⟨fuel + 1, name, path, state, exact⟩)
      (henter : Enters prepared.context name path state node)
      (hstart : prepared.context.enterStart state node = .ok (start, inputs))
      (hsplit : inputs.zipIdx = before ++ item :: after)
      (hfed : before.foldlM (prepared.context.inputStep (prepared.context.nodeDigest fuel) node
        (node.rule.name :: path)) start = .ok fed)
      (hedge : prepared.context.inputEdge node (node.rule.name :: path) fed item = some edge) :
      Prepared.Calls prepared ⟨fuel, edge.target, node.rule.name :: path, edge.state, edge.exact⟩
  | visibility {fuel : Nat} {name : String} {path : List String} {state : HashState D}
      {exact : Bool} {node : RuleNode D} {start done fed : HashState D × TargetDigestBuilder}
      {inputs before after : List String} {packageGroup : String} {edge : Edge D}
      (hcall : Prepared.Calls prepared ⟨fuel + 1, name, path, state, exact⟩)
      (henter : Enters prepared.context name path state node)
      (hstart : prepared.context.enterStart state node = .ok (start, inputs))
      (hdone : inputs.zipIdx.foldlM (prepared.context.inputStep (prepared.context.nodeDigest fuel)
        node (node.rule.name :: path)) start = .ok done)
      (hsplit : prepared.context.visibilityOf node.rule = before ++ packageGroup :: after)
      (hfed : before.foldlM (prepared.context.visibilityStep (prepared.context.nodeDigest fuel)
        node.rule.name (node.rule.name :: path)) done = .ok fed)
      (hedge : prepared.context.visibilityEdge node.rule.name fed packageGroup = some edge) :
      Prepared.Calls prepared ⟨fuel, edge.target, node.rule.name :: path, edge.state, edge.exact⟩

namespace HashContext

variable (context : HashContext D)

/-- `nodeStep` without the branch of a rule that is being hashed. -/
def strictStep (visit : Visit D) : Visit D := fun name path state =>
  if (state.digests[name]?).isNone ∧ name ∈ path then .error (.panic ("back edge to " ++ name))
  else context.nodeStep visit name path state

/-- A traversal that fails where the real one stands in with a placeholder. -/
def strictDigest : Nat → Visit D
  | 0 => fun _ _ _ => .error .outOfFuel
  | fuel + 1 => context.strictStep (strictDigest fuel)

end HashContext

/-- A run without back edges never uses a placeholder: the traversal that fails on one does
the same. -/
theorem strictDigest_eq {prepared : Prepared D}
    (h : ∀ call, prepared.Calls call → ¬ call.BackEdge) {call : Call D}
    (hcall : prepared.Calls call) :
    prepared.context.strictDigest call.fuel call.name call.path call.state =
      prepared.context.nodeDigest call.fuel call.name call.path call.state := by
  obtain ⟨fuel, name, path, state, exact⟩ := call
  dsimp only
  induction fuel generalizing name path state exact with
  | zero => rfl
  | succ fuel ih =>
      have hnot := h _ hcall
      rw [Call.BackEdge] at hnot
      dsimp only at hnot
      rw [HashContext.strictDigest, HashContext.strictStep, if_neg, HashContext.nodeDigest]
      · rw [HashContext.nodeStep, HashContext.nodeStep]
        cases hdigest : state.digests[name]? with
        | some d => rfl
        | none =>
            cases hnode : prepared.context.nodes[name]? with
            | none => rfl
            | some node =>
                dsimp only
                by_cases hpath : name ∈ path
                · exact absurd ⟨hdigest, hpath⟩ hnot
                · rw [if_neg hpath, if_neg hpath]
                  have henter : Enters prepared.context name path state node :=
                    ⟨hdigest, hnode, hpath⟩
                  symm
                  apply prepared.context.enterNode_congr
                  · intro start inputs before item after fed edge hstart hsplit hfed hedge
                    exact (ih _ _ _ _ (.input hcall henter hstart hsplit hfed hedge)).symm
                  · intro start inputs done before packageGroup after fed edge hstart hdone hsplit
                      hfed hedge
                    exact (ih _ _ _ _
                      (.visibility hcall henter hstart hdone hsplit hfed hedge)).symm
      · rintro ⟨hpending, hpath⟩
        exact hnot ⟨Option.isNone_iff_eq_none.mp hpending, hpath⟩

/-! ## Exact edges -/

/-- The inputs of a rule, with those it shares. -/
def HashContext.allInputs (context : HashContext D) (node : RuleNode D) : List String :=
  context.inputsOf node ++ ((node.prepared.sharedInputs.map (·.labels)).getD [])

/-- An edge from a rule to the instance that one of its inputs names, when the instance is in
the result. -/
def ExactEdge (context : HashContext D) (rules : Labels D) (name target : String) : Prop :=
  ∃ node input, context.nodes[name]? = some node ∧ input ∈ context.allInputs node ∧
    input ≠ name ∧ (rules.find input).rule = some target

/-- A run under `cquery`: inputs have no positions and go through no views. -/
structure ConfiguredContext (context : HashContext D) : Prop where
  keyed : KeyedNodes context.nodes
  positions : ∀ {name : String} {node : RuleNode D}, context.nodes[name]? = some node →
    node.inputPositions = none
  cquery : context.options.bazel.useCquery = true

theorem ConfiguredContext.walk {context : HashContext D} (h : ConfiguredContext context) :
    Walk context (fun _ => True) (fun _ _ => True) (fun _ _ => True) := by
  refine ⟨h.keyed, fun _ => trivial, fun _ => trivial, fun label => ?_, fun _ _ => trivial,
    fun _ _ => trivial, fun _ _ _ => trivial, fun _ _ _ _ => trivial, fun _ _ _ _ => trivial,
    fun _ _ _ => trivial⟩
  exact (show Ensures (fun _ => True) _ from fun _ _ => trivial).meets

omit [HashFunction D] in
/-- A rule an input resolves to is the one its key stands for. -/
theorem HashState.resolveByName_rule {state : HashState D} {encodedInput inputLabel : String}
    {path : List String} {dependency target : String} {prior : Option D}
    (h : state.resolveByName encodedInput inputLabel path = some (.rule dependency target prior)) :
    (state.rules.find dependency).rule = some target := by
  have hresolving : ∀ key, state.resolving key (state.rules.find key) =
      some (.rule dependency target prior) → (state.rules.find dependency).rule = some target := by
    intro key hkey
    obtain ⟨node, hnode, heq⟩ := Option.map_eq_some_iff.mp hkey
    cases heq
    exact hnode
  rw [resolveByName] at h
  cases hsource : (state.rules.find inputLabel).source with
  | some d =>
      rw [hsource] at h
      cases h
  | none =>
      rw [hsource] at h
      dsimp only at h
      split at h
      · rename_i found hfound
        obtain rfl := Option.some.inj h
        rcases Option.or_eq_some_iff.mp hfound with hexact | ⟨-, hbare⟩
        · split_ifs at hexact
          exact hresolving _ hexact
        · exact hresolving _ hbare
      · split at h
        · cases h
        · split_ifs at h
          exact hresolving _ h

section Edges

variable {context : HashContext D} {rules : Labels D}

/-- The state of a call, in a run that started from the table `rules`. -/
structure CallOk (context : HashContext D) (rules : Labels D) (call : Call D) : Prop where
  nodup : call.path.Nodup
  path : ∀ name ∈ call.path, name ∈ context.nodes
  fuel : context.nodes.size < call.fuel + call.path.length
  holds : Walk.Holds (fun _ _ => True) rules call.state

omit [HashFunction D] in
/-- The edge of an input, in a run under `cquery`. -/
theorem inputEdge_ok (h : ConfiguredContext context) {name : String} {node : RuleNode D}
    (hnode : context.nodes[name]? = some node) {path : List String}
    {fed : HashState D × TargetDigestBuilder}
    (hfed : Walk.Holds (fun _ _ => True) rules fed.1) {item : String × Nat} {edge : Edge D}
    (hedge : context.inputEdge node path fed item = some edge) :
    Walk.Holds (fun _ _ => True) rules edge.state ∧
      ∃ dependency, dependency ≠ node.rule.name ∧ (rules.find dependency).rule = some edge.target ∧
        (edge.exact = true → dependency = item.1) := by
  have hextension : context.extensionOf node.rule = none := by
    rw [HashContext.extensionOf, h.cquery]
    rfl
  have hview : HashContext.extensionView fed.1 none item.1 = none := rfl
  rw [HashContext.inputEdge, hextension, hview, h.positions hnode] at hedge
  dsimp only [Option.isSome_none, Option.getD_none, Option.bind_none] at hedge
  obtain ⟨index, heq, -⟩ := fed.1.resolveInput_eq item.1 path
    (show ∀ id, (none : Option Nat) = some id → fed.1.rules.ids[targetLabel item.1]? = some id by
      intro id hid
      cases hid)
  rw [ite_self, heq] at hedge
  dsimp only at hedge
  split at hedge
  · rename_i dependency target prior hresolved
    split_ifs at hedge with hskip
    obtain rfl := Option.some.inj hedge
    refine ⟨⟨trivial, hfed.rule, hfed.replaced⟩, dependency, fun hself => hskip (Or.inl hself), ?_,
      of_decide_eq_true⟩
    rw [← hfed.rule]
    exact HashState.resolveByName_rule hresolved
  · cases hedge

omit [HashFunction D] in
theorem visibilityEdge_ok {canonicalKey packageGroup : String}
    {fed : HashState D × TargetDigestBuilder} {edge : Edge D}
    (hedge : context.visibilityEdge canonicalKey fed packageGroup = some edge) :
    edge.state = fed.1 ∧ edge.exact = false := by
  rw [HashContext.visibilityEdge] at hedge
  split_ifs at hedge
  obtain ⟨group, -, hedge⟩ := Option.bind_eq_some_iff.mp hedge
  split_ifs at hedge
  obtain rfl := Option.some.inj hedge
  exact ⟨rfl, rfl⟩

/-- What a visit starts its loops with. -/
theorem enterStart_ok (h : ConfiguredContext context) {node : RuleNode D} {state : HashState D}
    (hstate : Walk.Holds (fun _ _ => True) rules state)
    {start : HashState D × TargetDigestBuilder} {inputs : List String}
    (hstart : context.enterStart state node = .ok (start, inputs)) :
    Walk.Holds (fun _ _ => True) rules start.1 ∧ ∀ input ∈ inputs, input ∈ context.allInputs node := by
  obtain ⟨⟨state', builder⟩, hfirst, hstart⟩ := bind_eq_ok hstart
  have hfed := (h.walk.startDigest hstate node).ensures _ hfirst
  have hown : ∀ input ∈ context.inputsOf node, input ∈ context.allInputs node :=
    fun input hinput => List.mem_append_left _ hinput
  dsimp only at hstart
  cases hgroup : node.prepared.sharedInputs with
  | none =>
      rw [hgroup] at hstart
      cases hstart
      exact ⟨hfed.1, hown⟩
  | some group =>
      rw [hgroup] at hstart
      dsimp only at hstart
      cases happly : HashContext.applyRepositoryInputs state' group builder with
      | some fed =>
          rw [happly] at hstart
          cases hstart
          exact ⟨(h.walk.applyRepositoryInputs hfed happly).1, hown⟩
      | none =>
          rw [happly] at hstart
          cases hstart
          refine ⟨hfed.1, fun input hinput => ?_⟩
          rw [HashContext.allInputs, hgroup]
          exact hinput

end Edges

/-! ## Runs without back edges -/

section Runs

variable {prepared : Prepared D}

/-- The calls inside a call that hashes its rule are as good as it is. -/
theorem CallOk.enter (h : ConfiguredContext prepared.context) {fuel : Nat} {name : String}
    {path : List String} {state : HashState D} {exact : Bool} {node : RuleNode D}
    (hok : CallOk prepared.context prepared.state.rules ⟨fuel + 1, name, path, state, exact⟩)
    (henter : Enters prepared.context name path state node) :
    (∀ state', Walk.Holds (fun _ _ => True) prepared.state.rules state' → ∀ target exact',
      CallOk prepared.context prepared.state.rules
        ⟨fuel, target, node.rule.name :: path, state', exact'⟩) ∧
    Walk.Visits (fun _ => True) (fun _ _ => True) prepared.state.rules
      (prepared.context.nodeDigest fuel) (node.rule.name :: path) := by
  obtain rfl := h.keyed henter.node
  have hnodup : (node.rule.name :: path).Nodup := List.nodup_cons.mpr ⟨henter.fresh, hok.nodup⟩
  have hpath : ∀ name ∈ node.rule.name :: path, name ∈ prepared.context.nodes := by
    intro name hname
    rcases List.mem_cons.mp hname with rfl | hname
    · exact mem_of_getElem? henter.node
    · exact hok.path name hname
  have hfuel : prepared.context.nodes.size < fuel + (node.rule.name :: path).length := by
    have hbound := hok.fuel
    dsimp only at hbound
    rw [List.length_cons]
    omega
  exact ⟨fun state' hstate' target exact' => ⟨hnodup, hpath, hfuel, hstate'⟩,
    h.walk.nodeDigest fuel hnodup hpath hfuel⟩

/-- The table is as it was after any number of inputs. -/
theorem CallOk.fedInputs (h : ConfiguredContext prepared.context) {fuel : Nat} {name : String}
    {path : List String} {state : HashState D} {exact : Bool} {node : RuleNode D}
    (hok : CallOk prepared.context prepared.state.rules ⟨fuel + 1, name, path, state, exact⟩)
    (henter : Enters prepared.context name path state node)
    {start fed : HashState D × TargetDigestBuilder} {inputs : List String}
    (hstart : prepared.context.enterStart state node = .ok (start, inputs))
    {items : List (String × Nat)}
    (hfed : items.foldlM (prepared.context.inputStep (prepared.context.nodeDigest fuel) node
      (node.rule.name :: path)) start = .ok fed) :
    Walk.Fed (fun _ _ => True) (fun _ _ => True) prepared.state.rules node fed := by
  have hvisit := (hok.enter h henter).2
  have hfirst := (enterStart_ok h hok.holds hstart).1
  have hloop : Ensures (Walk.Fed (fun _ _ => True) (fun _ _ => True) prepared.state.rules node)
      (items.foldlM (prepared.context.inputStep (prepared.context.nodeDigest fuel) node
        (node.rule.name :: path)) start) :=
    (Meets.foldlM (fun item _ fed hfed => h.walk.inputStep hvisit hfed item)
      ⟨hfirst, trivial⟩).ensures
  exact hloop fed hfed

/-- Every call of a run stays within the nodes, and finds the table as it was. -/
theorem calls_ok (h : ConfiguredContext prepared.context) {call : Call D}
    (hcall : prepared.Calls call) : CallOk prepared.context prepared.state.rules call := by
  induction hcall with
  | @target before after target key name done hsplit hdone hkey hprior hname =>
      have hhead := @Walk.run D _ (fun _ => True) (fun _ _ => True) (fun _ _ => True)
        { prepared with targets := before } h.walk (fun _ _ => True) (fun _ _ => trivial) trivial
      exact ⟨List.nodup_nil, nofun, by simp [HashContext.depth], (hhead.ensures _ hdone).1⟩
  | input hcall henter hstart hsplit hfed hedge ih =>
      have hholds := (ih.fedInputs h henter hstart hfed).1
      exact (ih.enter h henter).1 _ (inputEdge_ok h henter.node hholds hedge).1 _ _
  | @visibility fuel name path state exact node start done fed inputs before after packageGroup edge
      hcall henter hstart hdone hsplit hfed hedge ih =>
      obtain ⟨hnext, hvisit⟩ := ih.enter h henter
      have hgroups : Ensures (Walk.Fed (fun _ _ => True) (fun _ _ => True) prepared.state.rules node)
          (before.foldlM (prepared.context.visibilityStep (prepared.context.nodeDigest fuel)
            node.rule.name (node.rule.name :: path)) done) :=
        (Meets.foldlM (fun item _ fed hfed => h.walk.visibilityStep hvisit hfed item)
          (ih.fedInputs h henter hstart hdone)).ensures
      rw [(visibilityEdge_ok hedge).1]
      exact hnext _ (hgroups fed hfed).1 _ _

/-- No rule on the path of a call can be reached from its rule along exact edges. -/
def Call.Clear (prepared : Prepared D) (call : Call D) : Prop :=
  ∀ name ∈ call.path,
    ¬ Relation.ReflTransGen (ExactEdge prepared.context prepared.state.rules) call.name name

/-- A call along an exact edge is clear if the call it was made in was: a cycle through the
new rule would be a cycle of exact edges, or would reach the path from the old one. -/
theorem calls_clear (h : ConfiguredContext prepared.context)
    (hacyclic : ∀ name, ¬ Relation.TransGen (ExactEdge prepared.context prepared.state.rules)
      name name)
    (hloose : ∀ call, prepared.Calls call → call.exact = false → call.Clear prepared)
    {call : Call D} (hcall : prepared.Calls call) : call.Clear prepared := by
  induction hcall with
  | target _ _ _ _ _ => exact nofun
  | @input fuel name path state exact node start fed inputs before after item edge hcall henter
      hstart hsplit hfed hedge ih =>
      have hinner : prepared.Calls ⟨fuel, edge.target, node.rule.name :: path, edge.state,
          edge.exact⟩ := .input hcall henter hstart hsplit hfed hedge
      cases hexact : edge.exact with
      | false =>
          rw [hexact] at hinner
          exact hloose _ hinner rfl
      | true =>
          obtain rfl := h.keyed henter.node
          have hok := calls_ok h hcall
          have hinputs := (enterStart_ok h hok.holds hstart).2
          have hholds := (hok.fedInputs h henter hstart hfed).1
          obtain ⟨-, dependency, hother, htarget, hkey⟩ :=
            inputEdge_ok h henter.node hholds hedge
          obtain rfl := hkey hexact
          have hitem : item ∈ inputs.zipIdx := by
            rw [hsplit]
            exact List.mem_append_right _ List.mem_cons_self
          have hedge' : ExactEdge prepared.context prepared.state.rules node.rule.name
              edge.target :=
            ⟨node, item.1, henter.node, hinputs _ (List.fst_mem_of_mem_zipIdx hitem), hother,
              htarget⟩
          intro other hmem hreach
          rcases List.mem_cons.mp hmem with rfl | hmem
          · exact hacyclic _ (Relation.TransGen.head' hedge' hreach)
          · exact ih other hmem (Relation.ReflTransGen.head hedge' hreach)
  | @visibility fuel name path state exact node start done fed inputs before after packageGroup edge
      hcall henter hstart hdone hsplit hfed hedge ih =>
      have hinner : prepared.Calls ⟨fuel, edge.target, node.rule.name :: path, edge.state,
          edge.exact⟩ := .visibility hcall henter hstart hdone hsplit hfed hedge
      rw [(visibilityEdge_ok hedge).2] at hinner ⊢
      exact hloose _ hinner rfl

end Runs

theorem configuredContext_prepareTargets {options : HashOptions} {targets : List Target}
    {digests : PreparedRules D} {environment : Environment D} {prepared : Prepared D}
    (hcquery : options.bazel.useCquery = true)
    (h : prepareTargets options targets digests environment = .ok prepared) :
    ConfiguredContext prepared.context := by
  refine ⟨keyedNodes_prepareTargets options targets digests environment prepared h, ?_, ?_⟩
  · obtain ⟨seedHash, seeds, sources, graph, aliasing, -, -, -, hgraph, -, hcontext, -⟩ :=
      prepareTargets_ok h
    have hunprepared : graph.Unprepared := (foldIsolatedRoot_ok hgraph).2
      (unprepared_takeIn targets digests (newRecorder options targets seedHash) environment options
        sources)
    intro name node hnode
    rw [hcontext, runContext, Graph.prepare, hcquery] at hnode
    exact hunprepared hnode
  · obtain ⟨seedHash, seeds, sources, graph, aliasing, -, -, -, -, -, hcontext, -⟩ :=
      prepareTargets_ok h
    rw [hcontext]
    exact hcquery

/-- When the exact edges have no cycle, a run whose other calls are all clear takes no back
edge, and no placeholder is used. -/
theorem no_backEdge_of_clear {options : HashOptions} {targets : List Target}
    {digests : PreparedRules D} {environment : Environment D} {prepared : Prepared D}
    (hcquery : options.bazel.useCquery = true)
    (h : prepareTargets options targets digests environment = .ok prepared)
    (hacyclic : ∀ name, ¬ Relation.TransGen (ExactEdge prepared.context prepared.state.rules)
      name name)
    (hloose : ∀ call, prepared.Calls call → call.exact = false → call.Clear prepared) :
    ∀ call, prepared.Calls call → ¬ call.BackEdge ∧
      prepared.context.strictDigest call.fuel call.name call.path call.state =
        prepared.context.nodeDigest call.fuel call.name call.path call.state := by
  have hcontext := configuredContext_prepareTargets hcquery h
  have hnone : ∀ call, prepared.Calls call → ¬ call.BackEdge := by
    rintro call hcall ⟨-, hpath⟩
    exact calls_clear hcontext hacyclic hloose hcall call.name hpath Relation.ReflTransGen.refl
  exact fun call hcall => ⟨hnone call hcall, strictDigest_eq hnone hcall⟩

/-- A rule with an input that is not in the result, and another instance of that input. -/
def fallbackTargets (inputs : List ConfiguredRuleInput) : List Target :=
  [{ type := .rule
     rule := some { name := "//p:a|1", ruleClass := "genrule"
                    configuredRuleInput := [⟨some "//p:b", some "9"⟩] } },
   { type := .rule
     rule := some { name := "//p:b|2", ruleClass := "genrule", configuredRuleInput := inputs } }]

/-- The exact edges of a run, as a list. -/
def exactEdges (prepared : Prepared D) : List (String × String) :=
  prepared.context.nodes.toList.flatMap fun (name, node) =>
    (prepared.context.allInputs node).filterMap fun input =>
      (prepared.state.rules.find input).rule.map fun target => (name, target)

omit [HashFunction D] in
theorem mem_exactEdges {prepared : Prepared D} {name target : String}
    (h : ExactEdge prepared.context prepared.state.rules name target) :
    (name, target) ∈ exactEdges prepared := by
  obtain ⟨node, input, hnode, hinput, -, hrule⟩ := h
  refine List.mem_flatMap.mpr ⟨(name, node),
    Std.ExtTreeMap.mem_toList_iff_getElem?_eq_some.mpr hnode, ?_⟩
  exact List.mem_filterMap.mpr ⟨input, hinput, by rw [hrule]; rfl⟩

/-- A fallback closes a cycle: the exact edges have none, and the run meets a rule that is
being hashed. -/
theorem fallback_closes_cycle : ∃ prepared : Prepared Preimage,
    prepareTargets { bazel := { useCquery := true } } (fallbackTargets [⟨some "//p:a", some "1"⟩])
      SlotTable.empty Environment.bare = .ok prepared ∧
    (∀ name, ¬ Relation.TransGen (ExactEdge prepared.context prepared.state.rules) name name) ∧
    ∃ call, prepared.Calls call ∧ call.BackEdge := by
  have hshape : (do
      let prepared ← prepareTargets { bazel := { useCquery := true } }
        (fallbackTargets [⟨some "//p:a", some "1"⟩]) SlotTable.empty Environment.bare
      return (exactEdges prepared, prepared.targets,
        (prepared.context.strictDigest prepared.context.depth "//p:a|1" []
          prepared.state).toBool,
        (prepared.context.nodeDigest prepared.context.depth "//p:a|1" []
          prepared.state).toBool)) =
      .ok ([("//p:b|2", "//p:a|1")], [.rule "//p:a|1", .rule "//p:b|2"], false, true) := by
    decide +kernel
  obtain ⟨prepared, hprepared, hshape⟩ := bind_eq_ok hshape
  obtain ⟨hedges, hshape⟩ := Prod.mk.inj (Except.ok.inj hshape)
  obtain ⟨htargets, hshape⟩ := Prod.mk.inj hshape
  obtain ⟨hstrict, hreal⟩ := Prod.mk.inj hshape
  refine ⟨prepared, hprepared, ?_, ?_⟩
  · have hedge : ∀ name target, ExactEdge prepared.context prepared.state.rules name target →
        name = "//p:b|2" ∧ target = "//p:a|1" := by
      intro name target h
      have hmem := mem_exactEdges h
      rw [hedges] at hmem
      exact Prod.mk.inj (List.mem_singleton.mp hmem)
    intro name hcycle
    obtain ⟨next, hfirst, -⟩ := Relation.TransGen.head'_iff.mp hcycle
    obtain ⟨last, -, hlast⟩ := Relation.TransGen.tail'_iff.mp hcycle
    have hname := (hedge _ _ hfirst).1.symm.trans (hedge _ _ hlast).2
    exact absurd hname (by decide)
  · by_contra hnone
    push Not at hnone
    have hrule : findRule (fallbackTargets [⟨some "//p:a", some "1"⟩]) "//p:a|1" =
        some { name := "//p:a|1", ruleClass := "genrule"
               configuredRuleInput := [⟨some "//p:b", some "9"⟩] } := by
      decide +kernel
    have hslot := start_slot (by decide) hprepared hrule
    have hroot : prepared.Calls ⟨prepared.context.depth, "//p:a|1", [], prepared.state, true⟩ := by
      refine @Prepared.Calls.target _ _ prepared [] [.rule "//p:b|2"] (.rule "//p:a|1") "//p:a|1"
        "//p:a|1" (prepared.state, []) htargets rfl rfl ?_ hslot.1
      rw [HashState.prior]
      dsimp only
      rw [hslot.2]
      rfl
    have hsame := strictDigest_eq hnone hroot
    dsimp only at hsame
    rw [hsame, hreal] at hstrict
    cases hstrict

/-- The rules of a run that have inputs, and those that have a visibility. -/
def rulesWithEdges (prepared : Prepared D) : List String × List String :=
  ((prepared.context.nodes.toList.filter fun entry =>
      !(prepared.context.allInputs entry.2).isEmpty).map (·.1),
    (prepared.context.nodes.toList.filter fun entry =>
      !(prepared.context.visibilityOf entry.2.rule).isEmpty).map (·.1))

omit [HashFunction D] in
theorem mem_rulesWithEdges {prepared : Prepared D} {name : String} {node : RuleNode D}
    (h : prepared.context.nodes[name]? = some node) :
    (prepared.context.allInputs node ≠ [] → name ∈ (rulesWithEdges prepared).1) ∧
      (prepared.context.visibilityOf node.rule ≠ [] → name ∈ (rulesWithEdges prepared).2) := by
  have hmem := Std.ExtTreeMap.mem_toList_iff_getElem?_eq_some.mpr h
  constructor
  · intro hinputs
    exact List.mem_map.mpr ⟨(name, node), List.mem_filter.mpr ⟨hmem, by simpa using hinputs⟩, rfl⟩
  · intro hgroups
    exact List.mem_map.mpr ⟨(name, node), List.mem_filter.mpr ⟨hmem, by simpa using hgroups⟩, rfl⟩

/-- A fallback that closes nothing: the instance it leads to has no inputs. -/
theorem no_backEdge_harmless : ∃ prepared : Prepared Preimage,
    prepareTargets { bazel := { useCquery := true } } (fallbackTargets []) SlotTable.empty
      Environment.bare = .ok prepared ∧
    ∀ call, prepared.Calls call → ¬ call.BackEdge := by
  have hshape : (do
      let prepared ← prepareTargets { bazel := { useCquery := true } } (fallbackTargets [])
        SlotTable.empty Environment.bare
      return (exactEdges prepared, rulesWithEdges prepared, prepared.state.rules.ruleKeys)) =
      .ok ([], (["//p:a|1"], []), ["//p:a|1", "//p:b|2"]) := by
    decide +kernel
  obtain ⟨prepared, hprepared, hshape⟩ := bind_eq_ok hshape
  obtain ⟨hexact, hshape⟩ := Prod.mk.inj (Except.ok.inj hshape)
  obtain ⟨hwith, hkeys⟩ := Prod.mk.inj hshape
  have hcontext := configuredContext_prepareTargets rfl hprepared
  have hnone : ∀ {name target}, ¬ ExactEdge prepared.context prepared.state.rules name target := by
    intro name target hedge
    have hmem := mem_exactEdges hedge
    rw [hexact] at hmem
    exact absurd hmem List.not_mem_nil
  have hname : ∀ {name node}, prepared.context.nodes[name]? = some node →
      (prepared.context.allInputs node ≠ [] → name = "//p:a|1") ∧
        prepared.context.visibilityOf node.rule = [] := by
    intro name node hnode
    obtain ⟨hinputs, hgroups⟩ := mem_rulesWithEdges hnode
    rw [hwith] at hinputs hgroups
    refine ⟨fun hne => List.mem_singleton.mp (hinputs hne), ?_⟩
    by_contra hne
    exact absurd (hgroups hne) List.not_mem_nil
  have hinner : ∀ call, prepared.Calls call → (∀ name ∈ call.path, name = "//p:a|1") ∧
      (call.exact = false → call.name = "//p:b|2") := by
    intro call hcall
    induction hcall with
    | target _ _ _ _ _ => exact ⟨nofun, nofun⟩
    | @input fuel name path state exact node start fed inputs before after item edge hcall henter
        hstart hsplit hfed hedge ih =>
        have hok := calls_ok hcontext hcall
        have hinputs := (enterStart_ok hcontext hok.holds hstart).2
        have hitem : item ∈ inputs.zipIdx := by
          rw [hsplit]
          exact List.mem_append_right _ List.mem_cons_self
        have hown : node.rule.name = "//p:a|1" := by
          rw [hcontext.keyed henter.node]
          exact (hname henter.node).1
            (List.ne_nil_of_mem (hinputs _ (List.fst_mem_of_mem_zipIdx hitem)))
        refine ⟨fun other hother => ?_, fun _ => ?_⟩
        · rcases List.mem_cons.mp hother with rfl | hother
          · exact hown
          · exact ih.1 other hother
        · obtain ⟨-, dependency, hne, htarget, -⟩ := inputEdge_ok hcontext henter.node
            (hok.fedInputs hcontext henter hstart hfed).1 hedge
          have hkey : dependency ∈ prepared.state.rules.ruleKeys :=
            (SlotTable.mem_keysWith prepared.state.rules rfl).mpr (by rw [htarget]; rfl)
          rw [hkeys] at hkey
          rw [hown] at hne
          obtain rfl : dependency = "//p:b|2" := by simpa [hne] using hkey
          have hrule : findRule (fallbackTargets []) "//p:b|2" =
              some { name := "//p:b|2", ruleClass := "genrule" } := by
            decide +kernel
          rw [(start_slot (by decide) hprepared hrule).1] at htarget
          exact (Option.some.inj htarget).symm
    | visibility hcall henter hstart hdone hsplit hfed hedge ih =>
        rw [(hname henter.node).2] at hsplit
        exact absurd hsplit (by simp)
  have hrun := no_backEdge_of_clear rfl hprepared
    (fun name hcycle => by
      obtain ⟨next, hfirst, -⟩ := Relation.TransGen.head'_iff.mp hcycle
      exact hnone hfirst)
    (fun call hcall hloose name hpath hreach => by
      obtain ⟨hpaths, hnames⟩ := hinner call hcall
      rw [hpaths name hpath, hnames hloose] at hreach
      rcases Relation.ReflTransGen.cases_head hreach with heq | ⟨next, hedge, -⟩
      · exact absurd heq (by decide)
      · exact hnone hedge)
  exact ⟨prepared, hprepared, fun call hcall => (hrun call hcall).1⟩

end BazelDiff
