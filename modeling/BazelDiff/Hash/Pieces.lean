/-
# The graph a traversal hashes

Before it starts, a traversal is already determined to feed every rule certain pieces: its
definition and seeds, the text of each input with the content of the source or the hash of
the rule behind it, and the same for the package groups of its visibility. The graph of these
pieces is read off the table of labels as the traversal finds it. What the traversal adds to
the table later are files of labels that no rule stands for, so a rule resolves its inputs to
the same pieces whenever it is visited.
-/

import BazelDiff.Hash.Promotion
import BazelDiff.Lib.HashGraph

namespace BazelDiff

open Text HashFunction HashGraph Outcome

variable {D : Type} [HashFunction D]

/-! ## Pieces -/

namespace HashContext

variable (context : HashContext D)

/-- The digest of a file that is no target. -/
def softContent (label : String) : Option D :=
  (context.sourceHasher.softDigest label : Result (Option D)).toOption.join

/-- The digest of the Starlark files a rule was instantiated through. -/
def stackSeed (rule : Rule) : Option D :=
  if rule.instantiationStack.isEmpty then none
  else some (digest ((stackFiles rule).flatMap fun path =>
    ((context.softContent ("//" ++ path)).map fun d => utf8 path ++ bytes d).getD []))

/-- What a rule is hashed from before its inputs. -/
def startText (node : RuleNode D) : List UInt8 :=
  bytes node.prepared.definitionDigest ++ bytes context.seedHash ++
    optionBytes ((context.stackSeed node.rule).or
      context.packageBzlSeeds[labelPackage (targetLabel node.rule.name)]?) ++
    (if context.isAlwaysAffected node.rule then bytes context.alwaysAffectedSeed else [])

variable (start : HashState D)

/-- The content of a label: the digest of its source target, or of its file. -/
def content (label : String) : Option D :=
  ((start.rules.find label).source).or (context.softContent label)

/-- An input, or the extension view it is replaced by. -/
def encodedInput (node : RuleNode D) (input : String) : String :=
  (extensionView start (context.extensionOf node.rule) input).getD input

/-- What an input leads to: the source of its label, the rule its key stands for, or else a
file of its label. -/
def inputPiece (node : RuleNode D) (input : String) : Piece String String :=
  let encodedInput := context.encodedInput start node input
  let inputLabel := targetLabel encodedInput
  if (start.rules.find inputLabel).source.isSome then .source inputLabel
  else
    match (start.edgeKey encodedInput inputLabel []).bind
        fun key => (start.rules.find key).rule with
    | some name => .node name
    | none => .source inputLabel

def inputPieces (node : RuleNode D) (input : String) : List (Piece String String) :=
  [.text (utf8 (context.encodedInput start node input)), context.inputPiece start node input]

/-- What a label of the visibility leads to, if it is a package group. -/
def groupPieces (canonicalKey packageGroup : String) : List (Piece String String) :=
  if packageGroup = targetLabel canonicalKey then []
  else
    match context.groupOf start packageGroup with
    | some group => [.text (utf8 packageGroup), .node group]
    | none => []

/-- The pieces of a rule, in the order they are fed. -/
def rulePieces (node : RuleNode D) : List (Piece String String) :=
  .text (context.startText node) ::
    (context.allInputs node).flatMap (context.inputPieces start node) ++
    (context.visibilityOf node.rule).flatMap (context.groupPieces start node.rule.name)

/-- The pieces of a node by its name. -/
def pieces (name : String) : List (Piece String String) :=
  ((context.nodes[name]?).map (context.rulePieces start)).getD []

end HashContext

/-- The hashes of the finished rules. -/
def hashesOf (digests : StringMap (TargetDigest D)) (name : String) : Option (Hashes D) :=
  (digests[name]?).map fun d => ⟨d.direct, d.overall⟩

/-! ## Tables that agree with the start -/

/-- No key of the label stands for a rule. -/
def Unbuilt (start : HashState D) (label : String) : Prop :=
  ∀ encodedInput, targetLabel encodedInput = label → start.edgeKey encodedInput label [] = none

/-- The index of configured keys lists the keys of rules, and every such key. -/
structure IndexOk (state : HashState D) : Prop where
  listed : ∀ {key : String}, (state.rules.find key).rule.isSome = true → targetLabel key ≠ key →
    ∃ keys, state.instances[targetLabel key]? = some keys ∧ key ∈ keys
  stands : ∀ {label : String} {keys : List String}, state.instances[label]? = some keys →
    ∀ key ∈ keys, (state.rules.find key).rule.isSome = true

/-- A table as a traversal leaves it: some labels that no rule stands for have been given the
digest of their file. -/
structure TableOk (context : HashContext D) (start state : HashState D) : Prop where
  rule : ∀ key, (state.rules.find key).rule = (start.rules.find key).rule
  replaced : ∀ key, (state.rules.find key).replacedCanonical = none
  instances : state.instances = start.instances
  source : ∀ label, (state.rules.find label).source = (start.rules.find label).source ∨
    ((start.rules.find label).source = none ∧ Unbuilt start label ∧
      (state.rules.find label).source = context.softContent label)
  positions : context.PositionsOk state

namespace TableOk

variable {context : HashContext D} {start state : HashState D}

/-- A label that has a source has that of its content. -/
theorem content_of_source (h : TableOk context start state) {label : String} {d : D}
    (hd : (state.rules.find label).source = some d) : context.content start label = some d := by
  rw [HashContext.content]
  rcases h.source label with hsame | ⟨hnone, -, hsoft⟩
  · rw [← hsame, hd, Option.some_or]
  · rw [hnone, Option.none_or, ← hsoft, hd]

/-- A source target keeps its digest. -/
theorem source_of_start (h : TableOk context start state) {label : String} {d : D}
    (hd : (start.rules.find label).source = some d) :
    (state.rules.find label).source = some d := by
  rcases h.source label with hsame | ⟨hnone, -, -⟩
  · rw [hsame, hd]
  · rw [hnone] at hd
    cases hd

theorem encodedInput (h : TableOk context start state) (node : RuleNode D) (input : String) :
    (HashContext.extensionView state (context.extensionOf node.rule) input).getD input =
      context.encodedInput start node input := by
  rw [HashContext.encodedInput, HashContext.extensionView_eq, HashContext.extensionView_eq]
  simp only [h.rule]

theorem groupOf (h : TableOk context start state) (packageGroup : String) :
    context.groupOf state packageGroup = context.groupOf start packageGroup := by
  rw [HashContext.groupOf, HashContext.groupOf, h.rule]

/-- An input has the key it had at the start, unless that is being hashed. -/
theorem edgeKey (h : TableOk context start state) {encodedInput inputLabel : String}
    {path : List String}
    (hpath : ∀ key ∈ path, start.edgeKey encodedInput inputLabel [] ≠ some key) :
    state.edgeKey encodedInput inputLabel path = start.edgeKey encodedInput inputLabel [] := by
  rw [HashState.edgeKey] at hpath ⊢
  rw [HashState.edgeKey]
  simp only [h.rule, h.instances]
  split_ifs at hpath ⊢
  · rfl
  · rfl
  · cases hfallback : (start.instances[inputLabel]?).bind (·.head?) with
    | none => rfl
    | some fallback =>
        rw [hfallback] at hpath
        by_cases hrule : (start.rules.find fallback).rule.isSome = true
        · have hfound : (some fallback).filter (fun fallback =>
              decide (fallback ∉ ([] : List String) ∧
                (start.rules.find fallback).rule.isSome = true)) = some fallback := by
            simp [Option.filter, hrule]
          have hfresh : fallback ∉ path := fun hmem => hpath fallback hmem hfound
          simp [Option.filter, hfresh]
        · simp [Option.filter, hrule]

theorem of_same (h : TableOk context start state) {state' : HashState D}
    (hrules : state'.rules = state.rules) (hinstances : state'.instances = state.instances) :
    TableOk context start state' where
  rule key := by rw [hrules, h.rule]
  replaced key := by rw [hrules, h.replaced]
  instances := hinstances.trans h.instances
  source label := by
    rw [hrules]
    exact h.source label
  positions name node ids hnode hids i id hid := by
    rw [hrules]
    exact h.positions hnode hids hid

/-- A label that no rule stands for may be given the digest of its file. -/
theorem setSource (h : TableOk context start state) {label : String} {d : D}
    (hnone : (start.rules.find label).source = none) (hunbuilt : Unbuilt start label)
    (hsoft : context.softContent label = some d) :
    TableOk context start (state.setSource label d) where
  rule key := by rw [HashState.rule_setSource, h.rule]
  replaced key := by
    rw [HashState.find_setSource]
    split_ifs
    · exact h.replaced label
    · exact h.replaced key
  instances := by rw [HashState.instances_setSource, h.instances]
  source key := by
    rw [HashState.find_setSource]
    split_ifs with hkey
    · subst hkey
      exact Or.inr ⟨hnone, hunbuilt, hsoft.symm⟩
    · exact h.source key
  positions := h.positions.setSource label d

end TableOk

omit [HashFunction D] in
/-- An input without a key is one of a label that no rule stands for. -/
theorem unbuilt_of_edgeKey {start : HashState D} (hindex : IndexOk start) {encodedInput : String}
    (hnone : start.edgeKey encodedInput (targetLabel encodedInput) [] = none) :
    Unbuilt start (targetLabel encodedInput) := by
  have hsplit : ∀ encoded label, start.edgeKey encoded label [] = none ↔
      ¬ (encoded ≠ label ∧ (start.rules.find encoded).rule.isSome = true) ∧
        ¬ (start.rules.find label).rule.isSome = true ∧
        ((start.instances[label]?).bind (·.head?)).filter (fun fallback =>
          decide (fallback ∉ ([] : List String) ∧
            (start.rules.find fallback).rule.isSome = true)) = none := by
    intro encoded label
    rw [HashState.edgeKey]
    split_ifs with hexact hbare
    · simp [hexact]
    · simp [hbare]
    · simp [hexact, hbare]
  obtain ⟨-, hbare, hfallback⟩ := (hsplit _ _).mp hnone
  intro encoded hlabel
  refine (hsplit _ _).mpr ⟨?_, hbare, hfallback⟩
  rintro ⟨hne, hrule⟩
  -- The key would be listed, and the first key of the list would be the fallback.
  obtain ⟨keys, hkeys, hmem⟩ := hindex.listed hrule (by rw [hlabel]; exact hne.symm)
  rw [hlabel] at hkeys
  obtain ⟨first, rest, rfl⟩ := List.exists_cons_of_ne_nil (List.ne_nil_of_mem hmem)
  have hstands := hindex.stands hkeys first List.mem_cons_self
  rw [hkeys] at hfallback
  simp [Option.filter, hstands] at hfallback

end BazelDiff
