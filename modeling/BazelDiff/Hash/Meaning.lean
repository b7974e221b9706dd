/-
# What a traversal computes

A traversal of a graph without cycles gives every rule it finishes the hash of its pieces:
no rule stands in with a placeholder, no fallback is dropped, and neither the order of the
visits nor what has been kept from earlier ones shows in a hash.
-/

import BazelDiff.Hash.Pieces

namespace BazelDiff

open Text HashFunction HashGraph Outcome Relation

variable {D : Type} [HashFunction D]

/-! ## States -/

/-- A start from which the graph can be read off. -/
structure StartOk (context : HashContext D) (start : HashState D) : Prop where
  keyed : KeyedNodes context.nodes
  own : ∀ {name : String} {node : RuleNode D}, context.nodes[name]? = some node →
    (start.rules.find name).rule = some name
  index : IndexOk start
  groups : ∀ {name name' : String} {node node' : RuleNode D} {group group' : RepositoryInputGroup},
    context.nodes[name]? = some node → context.nodes[name']? = some node' →
    node.prepared.sharedInputs = some group → node'.prepared.sharedInputs = some group' →
    group.extension = group'.extension → group.labels = group'.labels
  /-- A hub has no inputs but the shared ones, goes through no views, and shares labels that
  carry no configuration. -/
  hubs : ∀ {name : String} {node : RuleNode D} {group : RepositoryInputGroup},
    context.nodes[name]? = some node → node.prepared.sharedInputs = some group →
    context.inputsOf node = [] ∧ context.extensionOf node.rule = none ∧
      ∀ label ∈ group.labels, targetLabel label = label

/-- No rule leads to itself. -/
def Acyclic (context : HashContext D) (start : HashState D) : Prop :=
  ∀ name, ¬ TransGen (Leads (context.pieces start)) name name

/-- Hashes are added and none is changed. -/
def Keeps (digests digests' : StringMap (TargetDigest D)) : Prop :=
  ∀ name h, hashesOf digests name = some h → hashesOf digests' name = some h

/-- What is fed as one for finished rules that are no sources. -/
structure SharedEntry (start : HashState D) (digests : StringMap (TargetDigest D))
    (labels : List String) (entry : List UInt8 × List UInt8) : Prop where
  finished : ∀ label ∈ labels, (start.rules.find label).source = none ∧
    (start.rules.find label).rule = some label ∧ (hashesOf digests label).isSome = true
  entry : entry = (labels.flatMap utf8,
    belowText (S := String) (hashesOf digests) (labels.map .node))

/-- A state as a traversal leaves it: the finished rules have the hashes of their pieces. -/
structure MerkleState (context : HashContext D) (start state : HashState D) : Prop where
  table : TableOk context start state
  bzl : ∀ (path : String) d, state.bzlDigests[path]? = some d →
    context.softContent ("//" ++ path) = d
  hashed : Merkle (context.pieces start) (context.content start) (hashesOf state.digests)
  cache : ∀ {name : String} {node : RuleNode D} {group : RepositoryInputGroup}
    {entry : List UInt8 × List UInt8}, context.nodes[name]? = some node →
    node.prepared.sharedInputs = some group →
    state.repositoryInputDigests[group.extension]? = some entry →
    SharedEntry start state.digests group.labels entry

/-- A builder that has been fed the pieces `done`, in a state that knows what they lead to. -/
structure FedPieces (context : HashContext D) (start : HashState D)
    (base : StringMap (TargetDigest D)) (done : List (Piece String String))
    (fed : HashState D × TargetDigestBuilder) : Prop where
  sound : MerkleState context start fed.1
  grows : Keeps base fed.1.digests
  direct : fed.2.directHasher = ownText (context.content start) done
  overall : fed.2.overallHasher = belowText (hashesOf fed.1.digests) done
  closed : ∀ target, .node target ∈ done → (hashesOf fed.1.digests target).isSome = true

namespace Keeps

variable {digests digests' digests'' : StringMap (TargetDigest D)}

omit [HashFunction D] in
theorem refl (digests : StringMap (TargetDigest D)) : Keeps digests digests :=
  fun _ _ h => h

omit [HashFunction D] in
theorem trans (h : Keeps digests digests') (h' : Keeps digests' digests'') :
    Keeps digests digests'' :=
  fun name hash hname => h' name hash (h name hash hname)

omit [HashFunction D] in
theorem isSome (h : Keeps digests digests') {name : String}
    (hname : (hashesOf digests name).isSome = true) : (hashesOf digests' name).isSome = true := by
  obtain ⟨hash, hhash⟩ := Option.isSome_iff_exists.mp hname
  rw [h name hash hhash]
  rfl

/-- Text below finished rules stays as it is. -/
theorem belowText {S : Type} (h : Keeps digests digests') {pieces : List (Piece S String)}
    (hknown : ∀ target, .node target ∈ pieces → (hashesOf digests target).isSome = true) :
    belowText (hashesOf digests') pieces = belowText (hashesOf digests) pieces := by
  apply belowText_congr
  intro target htarget
  obtain ⟨hash, hhash⟩ := Option.isSome_iff_exists.mp (hknown target htarget)
  rw [hhash, h target hash hhash]

end Keeps

theorem SharedEntry.mono {start : HashState D} {digests digests' : StringMap (TargetDigest D)}
    {labels : List String} {entry : List UInt8 × List UInt8}
    (h : SharedEntry start digests labels entry) (hgrows : Keeps digests digests') :
    SharedEntry start digests' labels entry where
  finished label hlabel := by
    obtain ⟨hsource, hrule, hsome⟩ := h.finished label hlabel
    exact ⟨hsource, hrule, hgrows.isSome hsome⟩
  entry := by
    rw [h.entry, hgrows.belowText]
    intro target htarget
    obtain ⟨label, hlabel, heq⟩ := List.mem_map.mp htarget
    obtain rfl := Piece.node.inj heq
    exact (h.finished label hlabel).2.2

/-- A state that differs in nothing the hashes come from. -/
theorem MerkleState.of_same {context : HashContext D} {start state state' : HashState D}
    (h : MerkleState context start state) (hrules : state'.rules = state.rules)
    (hinstances : state'.instances = state.instances) (hdigests : state'.digests = state.digests)
    (hbzl : ∀ (path : String) d, state'.bzlDigests[path]? = some d →
      context.softContent ("//" ++ path) = d)
    (hcache : state'.repositoryInputDigests = state.repositoryInputDigests) :
    MerkleState context start state' where
  table := h.table.of_same hrules hinstances
  bzl := hbzl
  hashed := by
    rw [hdigests]
    exact h.hashed
  cache hnode hgroup hentry := by
    rw [hcache] at hentry
    rw [hdigests]
    exact h.cache hnode hgroup hentry

namespace FedPieces

variable {context : HashContext D} {start : HashState D} {base : StringMap (TargetDigest D)}
  {done : List (Piece String String)} {state : HashState D} {builder : TargetDigestBuilder}

/-- Another state that knows the same finished rules. -/
theorem move (h : FedPieces context start base done (state, builder)) {state' : HashState D}
    (hsound : MerkleState context start state') (hgrows : Keeps state.digests state'.digests) :
    FedPieces context start base done (state', builder) where
  sound := hsound
  grows := h.grows.trans hgrows
  direct := h.direct
  overall := h.overall.trans (hgrows.belowText h.closed).symm
  closed target htarget := hgrows.isSome (h.closed target htarget)

theorem feedText (h : FedPieces context start base done (state, builder)) (fed : List UInt8) :
    FedPieces context start base (done ++ [.text fed]) (state, builder.direct fed) where
  sound := h.sound
  grows := h.grows
  direct := by
    have hdirect : builder.directHasher = ownText (context.content start) done := h.direct
    simp [TargetDigestBuilder.direct, hdirect, ownText, Piece.own]
  overall := by
    have hoverall : builder.overallHasher = belowText (hashesOf state.digests) done := h.overall
    simp [TargetDigestBuilder.direct, hoverall, belowText, Piece.below]
  closed target htarget := h.closed target (by simpa using htarget)

/-- A source that has no content is passed over. -/
theorem feedSource (h : FedPieces context start base done (state, builder)) {label : String}
    {content : Option D} (hcontent : context.content start label = content) :
    FedPieces context start base (done ++ [.source label])
      (state, (content.map (builder.source label)).getD builder) where
  sound := h.sound
  grows := h.grows
  direct := by
    have hdirect : builder.directHasher = ownText (context.content start) done := h.direct
    cases content <;>
      simp [TargetDigestBuilder.source, hdirect, ownText, Piece.own, hcontent, optionBytes]
  overall := by
    have hoverall : builder.overallHasher = belowText (hashesOf state.digests) done := h.overall
    cases content <;>
      simp [TargetDigestBuilder.source, hoverall, belowText, Piece.below]
  closed target htarget := h.closed target (by simpa using htarget)

theorem feedNode (h : FedPieces context start base done (state, builder)) {name : String}
    {hash : Hashes D} (hhash : hashesOf state.digests name = some hash)
    (label canonical : String) :
    FedPieces context start base (done ++ [.node name])
      (state, builder.transitive label canonical hash.overall) where
  sound := h.sound
  grows := h.grows
  direct := by
    have hdirect : builder.directHasher = ownText (context.content start) done := h.direct
    simp [TargetDigestBuilder.transitive, hdirect, ownText, Piece.own]
  overall := by
    have hoverall : builder.overallHasher = belowText (hashesOf state.digests) done := h.overall
    simp [TargetDigestBuilder.transitive, hoverall, belowText, Piece.below, hhash, optionBytes]
  closed target htarget := by
    rcases List.mem_append.mp htarget with hdone | hlast
    · exact h.closed target hdone
    · have heq : target = name := by simpa using hlast
      rw [heq]
      exact congrArg Option.isSome hhash

end FedPieces

/-! ## What comes before the inputs -/

section Steps

variable {context : HashContext D} {start : HashState D}

/-- A sound state with the same finished rules. -/
def Kept (context : HashContext D) (start state state' : HashState D) : Prop :=
  MerkleState context start state' ∧ state'.digests = state.digests

theorem bzlDigest_sound {state : HashState D} (h : MerkleState context start state)
    (path : String) :
    Ensures (fun done => Kept context start state done.1 ∧
      done.2 = context.softContent ("//" ++ path)) (context.bzlDigest state path) := by
  rw [HashContext.bzlDigest]
  cases hcached : state.bzlDigests[path]? with
  | some cached => exact Ensures.pure ⟨⟨h, rfl⟩, (h.bzl path cached hcached).symm⟩
  | none =>
      intro done hdone
      obtain ⟨d, hd, hdone⟩ := bind_eq_ok hdone
      obtain rfl := Except.ok.inj hdone
      have hsoft : context.softContent ("//" ++ path) = d := by
        rw [HashContext.softContent, hd]
        rfl
      refine ⟨⟨h.of_same rfl rfl rfl ?_ rfl, rfl⟩, hsoft.symm⟩
      intro other found hfound
      rw [Std.ExtTreeMap.getElem?_insert] at hfound
      split_ifs at hfound with hsame
      · obtain rfl := Std.LawfulEqOrd.eq_of_compare hsame
        obtain rfl := Option.some.inj hfound
        exact hsoft
      · exact h.bzl other found hfound

/-- What the files of a stack are fed as. -/
def stackText (context : HashContext D) (files : List String) : List UInt8 :=
  files.flatMap fun path =>
    ((context.softContent ("//" ++ path)).map fun d => utf8 path ++ bytes d).getD []

theorem ruleBzlSeed_sound {state : HashState D} (h : MerkleState context start state)
    (rule : Rule) :
    Ensures (fun done => Kept context start state done.1 ∧ done.2 = context.stackSeed rule)
      (context.ruleBzlSeed state rule) := by
  rw [HashContext.ruleBzlSeed, HashContext.stackSeed]
  split_ifs
  · exact Ensures.pure ⟨⟨h, rfl⟩, rfl⟩
  · have hfiles : Ensures (fun fed : HashState D × List UInt8 => Kept context start state fed.1 ∧
        fed.2 = stackText context (HashContext.stackFiles rule))
        ((HashContext.stackFiles rule).foldlM context.feedStackFile (state, [])) := by
      refine Ensures.foldlM_done (Q := fun files (fed : HashState D × List UInt8) =>
        Kept context start state fed.1 ∧ fed.2 = stackText context files) ?_ ⟨⟨h, rfl⟩, rfl⟩
      rintro before path after - ⟨mid, fed⟩ ⟨hmid, hfed⟩
      refine Ensures.bind (bzlDigest_sound hmid.1 path) ?_
      rintro ⟨next, d⟩ ⟨hnext, hd⟩
      have hkept : Kept context start state next := ⟨hnext.1, hnext.2.trans hmid.2⟩
      have htext : stackText context (before ++ [path]) =
          fed ++ ((d.map fun d => utf8 path ++ bytes d).getD []) := by
        dsimp only at hfed hd
        rw [hfed, hd, stackText, List.flatMap_append, List.flatMap_singleton]
        rfl
      cases d with
      | none => exact Ensures.pure ⟨hkept, by rw [htext]; simp⟩
      | some d => exact Ensures.pure ⟨hkept, by rw [htext]; simp⟩
    refine Ensures.bind hfiles fun fed hfed => Ensures.pure ⟨hfed.1, ?_⟩
    rw [hfed.2]
    rfl

/-- The contributions that come before the inputs. -/
theorem startDigest_sound {state : HashState D} (h : MerkleState context start state)
    (node : RuleNode D) :
    Ensures (fun fed => FedPieces context start state.digests [.text (context.startText node)] fed ∧
      fed.1.digests = state.digests) (context.startDigest state node) := by
  rw [HashContext.startDigest]
  refine Ensures.bind (ruleBzlSeed_sound h node.rule) ?_
  rintro ⟨mid, seed⟩ ⟨hmid, hseed⟩
  dsimp only at hseed
  refine Ensures.pure ⟨⟨hmid.1, ?_, ?_, ?_, ?_⟩, hmid.2⟩
  · rw [hmid.2]
    exact Keeps.refl _
  · dsimp only
    rw [HashContext.startText, ownText, List.flatMap_singleton, Piece.own, hseed]
    cases (context.stackSeed node.rule).or
      context.packageBzlSeeds[labelPackage (targetLabel node.rule.name)]? <;>
      split_ifs <;>
      simp [TargetDigestBuilder.new, TargetDigestBuilder.direct, optionBytes]
  · dsimp only
    change _ = ([] : List UInt8)
    cases (seed.or context.packageBzlSeeds[labelPackage (targetLabel node.rule.name)]?) <;>
      split_ifs <;> rfl
  · intro target htarget
    cases List.mem_singleton.mp htarget

/-! ## Inputs fed as one -/

omit [HashFunction D] in
/-- A label that no configuration belongs to leads to the rule it stands for. -/
theorem inputPieces_of_shared {node : RuleNode D}
    (hviews : context.extensionOf node.rule = none) {label : String}
    (hbare : targetLabel label = label) (hsource : (start.rules.find label).source = none)
    (hrule : (start.rules.find label).rule = some label) :
    context.inputPieces start node label = [.text (utf8 label), .node label] := by
  have hencoded : context.encodedInput start node label = label := by
    rw [HashContext.encodedInput, hviews]
    rfl
  have hkey : start.edgeKey label label [] = some label := by
    rw [HashState.edgeKey, if_neg (fun h => h.1 rfl), hrule]
    rfl
  rw [HashContext.inputPieces, HashContext.inputPiece, hencoded, hbare, hsource]
  rw [hkey, Option.bind_some, hrule]
  rfl

/-- Results of a `mapM` are those of its items. -/
theorem map_eq_of_mapM {α β : Type} {f : α → Option β} {items : List α} {results : List β}
    (h : items.mapM f = some results) : items.map f = results.map some := by
  induction items generalizing results with
  | nil =>
      cases h
      rfl
  | cons item items ih =>
      rw [List.mapM_cons] at h
      obtain ⟨first, hfirst, h⟩ := Option.bind_eq_some_iff.mp h
      obtain ⟨rest, hrest, h⟩ := Option.bind_eq_some_iff.mp h
      cases h
      rw [List.map_cons, List.map_cons, hfirst, ih hrest]

/-- Digests that are at hand are those of finished rules. -/
theorem sharedEntry_of_sharedDigests {state : HashState D} (h : TableOk context start state)
    {labels : List String} {entry : List UInt8 × List UInt8}
    (hentry : HashContext.sharedDigests state labels = some entry) :
    SharedEntry start state.digests labels entry := by
  rw [HashContext.sharedDigests_eq] at hentry
  obtain ⟨digests, hdigests, rfl⟩ := Option.map_eq_some_iff.mp hentry
  have hmap := map_eq_of_mapM hdigests
  have hone : ∀ {label : String} {d : TargetDigest D},
      HashContext.sharedDigest state label = some d → (start.rules.find label).source = none ∧
        (start.rules.find label).rule = some label ∧
        hashesOf state.digests label = some ⟨d.direct, d.overall⟩ := by
    intro label d hd
    rw [HashContext.sharedDigest] at hd
    split_ifs at hd with hsource
    rw [HashState.completed, h.replaced, Option.none_or] at hd
    obtain ⟨node, hnode, hcell⟩ := Option.bind_eq_some_iff.mp hd
    obtain ⟨hrule, hsame⟩ := Option.filter_eq_some_iff.mp hnode
    obtain rfl := of_decide_eq_true hsame
    refine ⟨?_, h.rule node ▸ hrule, ?_⟩
    · by_contra hsome
      obtain ⟨found, hfound⟩ := Option.ne_none_iff_exists'.mp hsome
      rw [h.source_of_start hfound] at hsource
      cases hsource
    · rw [hashesOf, hcell]
      rfl
  have hall : ∀ label ∈ labels, ∃ d, HashContext.sharedDigest state label = some d := by
    intro label hlabel
    have hmem : HashContext.sharedDigest state label ∈ digests.map some := by
      rw [← hmap]
      exact List.mem_map_of_mem hlabel
    obtain ⟨d, -, hd⟩ := List.mem_map.mp hmem
    exact ⟨d, hd.symm⟩
  refine ⟨fun label hlabel => ?_, ?_⟩
  · obtain ⟨d, hd⟩ := hall label hlabel
    obtain ⟨hsource, hrule, hhash⟩ := hone hd
    exact ⟨hsource, hrule, congrArg Option.isSome hhash⟩
  · have hbytes : digests.flatMap (fun d => bytes d.overall) =
        belowText (S := String) (hashesOf state.digests) (labels.map .node) := by
      have hleft : digests.flatMap (fun d => bytes d.overall) =
          (digests.map some).flatMap fun d => optionBytes (d.map (·.overall)) := by
        rw [List.flatMap_map]
        rfl
      rw [hleft, ← hmap, List.flatMap_map, belowText, List.flatMap_map]
      apply List.flatMap_congr
      intro label hlabel
      obtain ⟨d, hd⟩ := hall label hlabel
      obtain ⟨-, -, hhash⟩ := hone hd
      rw [hd, Piece.below, hhash]
      rfl
    rw [hbytes]

/-- Inputs fed as one are fed as they would be one by one. -/
theorem applyRepositoryInputs_sound (hstart : StartOk context start) {name : String}
    {node : RuleNode D} (hnode : context.nodes[name]? = some node)
    {group : RepositoryInputGroup} (hgroup : node.prepared.sharedInputs = some group)
    {base : StringMap (TargetDigest D)} {state : HashState D} {builder : TargetDigestBuilder}
    (h : FedPieces context start base [.text (context.startText node)] (state, builder))
    {fed : HashState D × TargetDigestBuilder}
    (happly : HashContext.applyRepositoryInputs state group builder = some fed) :
    FedPieces context start base (.text (context.startText node) ::
      group.labels.flatMap (context.inputPieces start node)) fed := by
  obtain ⟨entry, hentry, happly⟩ := Option.bind_eq_some_iff.mp happly
  obtain rfl := Option.some.inj happly
  have hshared : SharedEntry start state.digests group.labels entry := by
    rcases Option.or_eq_some_iff.mp hentry with hcached | ⟨-, hnow⟩
    · exact h.sound.cache hnode hgroup hcached
    · exact sharedEntry_of_sharedDigests h.sound.table hnow
  obtain ⟨-, hviews, hbare⟩ := hstart.hubs hnode hgroup
  have hpieces : group.labels.flatMap (context.inputPieces start node) =
      group.labels.flatMap fun label => [.text (utf8 label), .node label] := by
    apply List.flatMap_congr
    intro label hlabel
    obtain ⟨hsource, hrule, -⟩ := hshared.finished label hlabel
    exact inputPieces_of_shared hviews (hbare label hlabel) hsource hrule
  have hdirect : builder.directHasher = ownText (context.content start)
      [.text (context.startText node)] := h.direct
  rw [hpieces]
  refine ⟨⟨h.sound.table.of_same rfl rfl, h.sound.bzl, h.sound.hashed, ?_⟩, h.grows, ?_, ?_, ?_⟩
  · intro other otherNode otherGroup found hother hotherGroup hfound
    dsimp only at hfound
    rw [Std.ExtTreeMap.getElem?_insertIfNew] at hfound
    split_ifs at hfound with hnew
    · obtain rfl := Option.some.inj hfound
      have hextension := Std.LawfulEqOrd.eq_of_compare hnew.1
      rw [← hstart.groups hnode hother hgroup hotherGroup hextension]
      exact hshared
    · exact h.sound.cache hother hotherGroup hfound
  · simp [TargetDigestBuilder.shared, TargetDigestBuilder.direct, hdirect, hshared.entry, ownText,
      Piece.own, List.flatMap_assoc]
  · simp [TargetDigestBuilder.shared, hshared.entry, belowText, Piece.below, List.flatMap_assoc,
      List.flatMap_map]
  · intro target htarget
    rcases List.mem_cons.mp htarget with hfirst | hrest
    · cases hfirst
    · obtain ⟨label, hlabel, hpiece⟩ := List.mem_flatMap.mp hrest
      have hsame : target = label := by simpa using hpiece
      rw [hsame]
      exact (hshared.finished label hlabel).2.2

/-! ## Visits -/

/-- A visit that hashes every rule that all the rules on the path lead to. -/
def Understood (context : HashContext D) (start : HashState D) (visit : HashContext.Visit D)
    (path : List String) : Prop :=
  ∀ name state, MerkleState context start state →
    (∀ above ∈ path, TransGen (Leads (context.pieces start)) above name) →
    Ensures (fun done => MerkleState context start done.1 ∧ Keeps state.digests done.1.digests ∧
      hashesOf done.1.digests name = some ⟨done.2.direct, done.2.overall⟩) (visit name path state)

theorem visitOverall_sound {visit : HashContext.Visit D} {path : List String}
    (hvisit : Understood context start visit path) {state : HashState D}
    (h : MerkleState context start state) {name : String}
    (habove : ∀ above ∈ path, TransGen (Leads (context.pieces start)) above name)
    {prior : Option D} (hprior : ∀ d, prior = some d →
      ∃ hash, hashesOf state.digests name = some hash ∧ hash.overall = d) :
    Ensures (fun done => MerkleState context start done.1 ∧ Keeps state.digests done.1.digests ∧
      ∃ hash, hashesOf done.1.digests name = some hash ∧ hash.overall = done.2)
      (HashContext.visitOverall visit path state name prior) := by
  rw [HashContext.visitOverall]
  cases hfound : prior.or ((state.digests[name]?).map (·.overall)) with
  | some d =>
      refine Ensures.ok ⟨h, Keeps.refl _, ?_⟩
      rcases Option.or_eq_some_iff.mp hfound with hprior' | ⟨-, hcell⟩
      · exact hprior d hprior'
      · obtain ⟨digest, hdigest, rfl⟩ := Option.map_eq_some_iff.mp hcell
        exact ⟨⟨digest.direct, digest.overall⟩, by rw [hashesOf, hdigest]; rfl, rfl⟩
  | none =>
      dsimp only
      intro done hdone
      cases hresult : visit name path state with
      | error failure =>
          rw [hresult] at hdone
          cases hdone
      | ok result =>
          rw [hresult] at hdone
          obtain rfl := Except.ok.inj hdone
          obtain ⟨hsound, hgrows, hhash⟩ := hvisit name state h habove result hresult
          exact ⟨hsound, hgrows, _, hhash, rfl⟩

section Node

variable {name : String} {node : RuleNode D}

/-- What a rule leads to through its inputs and its visibility. -/
theorem leads_iff (hnode : context.nodes[name]? = some node) (target : String) :
    Leads (context.pieces start) name target ↔
      .node target ∈ context.rulePieces start node := by
  rw [Leads, HashContext.pieces, hnode]
  rfl

theorem leads_of_input (hnode : context.nodes[name]? = some node) {input target : String}
    (hinput : input ∈ context.allInputs node)
    (htarget : context.inputPiece start node input = .node target) :
    Leads (context.pieces start) name target := by
  rw [leads_iff hnode, HashContext.rulePieces]
  refine List.mem_append_left _ (List.mem_cons_of_mem _ (List.mem_flatMap.mpr ⟨input, hinput, ?_⟩))
  rw [HashContext.inputPieces, htarget]
  exact List.mem_cons_of_mem _ List.mem_cons_self

omit [HashFunction D] in
/-- An input that leads to a key of a rule. -/
theorem inputPiece_of_edgeKey {input key target : String}
    (hsource :
      (start.rules.find (targetLabel (context.encodedInput start node input))).source = none)
    (hkey : start.edgeKey (context.encodedInput start node input)
      (targetLabel (context.encodedInput start node input)) [] = some key)
    (hrule : (start.rules.find key).rule = some target) :
    context.inputPiece start node input = .node target := by
  rw [HashContext.inputPiece, hsource]
  rw [hkey, Option.bind_some, hrule]
  rfl

omit [HashFunction D] in
/-- An input that leads to no rule. -/
theorem inputPiece_of_no_edgeKey {input : String}
    (hkey : start.edgeKey (context.encodedInput start node input)
      (targetLabel (context.encodedInput start node input)) [] = none) :
    context.inputPiece start node input =
      .source (targetLabel (context.encodedInput start node input)) := by
  rw [HashContext.inputPiece, hkey]
  split_ifs <;> rfl

/-- An input that leads to another rule than its own is followed. -/
theorem feedInput_of_rule (visit : HashContext.Visit D) {canonicalKey key : String}
    (hother : key ≠ canonicalKey) (path : List String) (inputLabel : String) (state : HashState D)
    (builder : TargetDigestBuilder) (target : String) (prior : Option D) :
    context.feedInput visit canonicalKey path inputLabel state builder
        (some (.rule key target prior)) = (do
      let followed ← HashContext.visitOverall visit path state target prior
      return (followed.1, builder.transitive key target followed.2)) := by
  rw [HashContext.feedInput]
  simp only [Option.filter, decide_eq_true hother, if_true]

/-- One iteration of the loop over the inputs feeds the pieces of its input. -/
theorem inputStep_sound (hstart : StartOk context start) (hacyclic : Acyclic context start)
    (hnode : context.nodes[name]? = some node) {visit : HashContext.Visit D} {path : List String}
    (hvisit : Understood context start visit path)
    (habove : ∀ above ∈ path, ∀ target, Leads (context.pieces start) name target →
      TransGen (Leads (context.pieces start)) above target)
    (hpath : ∀ above ∈ path, (start.rules.find above).rule = some above)
    {base : StringMap (TargetDigest D)} {done : List (Piece String String)}
    {state : HashState D} {builder : TargetDigestBuilder}
    (h : FedPieces context start base done (state, builder)) {more : List String}
    {input : String × Nat} (hinput : input ∈ (context.inputsOf node ++ more).zipIdx)
    (hall : input.1 ∈ context.allInputs node) :
    Ensures (FedPieces context start base (done ++ context.inputPieces start node input.1))
      (context.inputStep visit node path (state, builder) input) := by
  obtain rfl := hstart.keyed hnode
  have htable := h.sound.table
  -- The input, its label, and the state after it has been resolved.
  have hencoded := htable.encodedInput node input.1
  have hslot : ∀ id, (if (HashContext.extensionView state (context.extensionOf node.rule)
      input.1).isSome then none
      else node.inputPositions.bind fun ids => (ids[input.2]?).getD none) = some id →
      state.rules.ids[targetLabel (context.encodedInput start node input.1)]? = some id := by
    intro id hid
    split_ifs at hid with hview
    have hnone :
        HashContext.extensionView state (context.extensionOf node.rule) input.1 = none := by
      simpa using hview
    rw [← hencoded, hnone, Option.getD_none]
    exact htable.positions.input hnode hinput hid
  obtain ⟨index, hresolve, hindex⟩ := state.resolveInput_eq
    (context.encodedInput start node input.1) path hslot
  rw [HashContext.inputStep]
  dsimp only
  rw [hencoded, hresolve]
  dsimp only
  set encodedInput := context.encodedInput start node input.1 with hencodedDef
  set inputLabel := targetLabel encodedInput with hlabelDef
  have hinstances : ({ state with labelInstances := index } : HashState D).instances =
      state.instances := by
    rcases hindex with rfl | rfl <;> rfl
  have hsame : MerkleState context start ({ state with labelInstances := index } : HashState D) :=
    h.sound.of_same rfl hinstances rfl h.sound.bzl rfl
  have hindexed : FedPieces context start base (done ++ [.text (utf8 encodedInput)])
      ({ state with labelInstances := index }, builder.direct (utf8 encodedInput)) :=
    (h.move hsame (Keeps.refl _)).feedText _
  have hpieces : done ++ context.inputPieces start node input.1 =
      (done ++ [.text (utf8 encodedInput)]) ++ [context.inputPiece start node input.1] := by
    rw [HashContext.inputPieces, List.append_assoc]
    rfl
  rw [hpieces]
  cases hsource : (state.rules.find inputLabel).source with
  | some d =>
      have hpiece : context.inputPiece start node input.1 = .source inputLabel := by
        rcases htable.source inputLabel with hsame | ⟨-, hunbuilt, -⟩
        · rw [HashContext.inputPiece, ← hencodedDef, ← hlabelDef, ← hsame, hsource]
          rfl
        · exact inputPiece_of_no_edgeKey (hunbuilt encodedInput rfl)
      have hresolved : state.resolveByName encodedInput inputLabel path = some (.source d) := by
        rw [HashState.resolveByName, hsource]
      rw [hresolved, hpiece]
      exact Ensures.pure (hindexed.feedSource (htable.content_of_source hsource))
  | none =>
      have hnone : (start.rules.find inputLabel).source = none := by
        by_contra hsome
        obtain ⟨d, hd⟩ := Option.ne_none_iff_exists'.mp hsome
        rw [htable.source_of_start hd] at hsource
        cases hsource
      have hfresh : ∀ key ∈ path, start.edgeKey encodedInput inputLabel [] ≠ some key := by
        intro key hmem hkey
        have hpiece : context.inputPiece start node input.1 = .node key :=
          inputPiece_of_edgeKey hnone hkey (hpath key hmem)
        exact hacyclic key (habove key hmem key (leads_of_input hnode hall hpiece))
      rw [HashState.resolveByName_eq_edgeKey hsource, htable.edgeKey hfresh]
      cases hkey : start.edgeKey encodedInput inputLabel [] with
      | none =>
          have hpiece : context.inputPiece start node input.1 = .source inputLabel :=
            inputPiece_of_no_edgeKey hkey
          rw [hpiece]
          intro fed hfed
          obtain ⟨soft, hsoft, hfed⟩ := bind_eq_ok hfed
          have hcontent : context.softContent inputLabel = soft := by
            rw [HashContext.softContent, hsoft]
            rfl
          have hlabel : context.content start inputLabel = soft := by
            rw [HashContext.content, hnone, Option.none_or, hcontent]
          have hunbuilt := unbuilt_of_edgeKey hstart.index hkey
          cases soft with
          | none =>
              obtain rfl := Except.ok.inj hfed
              exact hindexed.feedSource hlabel
          | some d =>
              obtain rfl := Except.ok.inj hfed
              have hset : MerkleState context start
                  (({ state with labelInstances := index } : HashState D).setSource inputLabel d) :=
                { table := hindexed.sound.table.setSource hnone hunbuilt hcontent
                  bzl := h.sound.bzl
                  hashed := h.sound.hashed
                  cache := h.sound.cache }
              exact (hindexed.feedSource hlabel).move hset (Keeps.refl _)
      | some key =>
          obtain ⟨target, htarget⟩ := HashState.rule_of_edgeKey hkey
          have hpiece : context.inputPiece start node input.1 = .node target :=
            inputPiece_of_edgeKey hnone hkey htarget
          have hleads := leads_of_input hnode hall hpiece
          have hother : key ≠ node.rule.name := by
            rintro rfl
            rw [hstart.own hnode] at htarget
            obtain rfl := Option.some.inj htarget
            exact hacyclic _ (TransGen.single hleads)
          have hresolving : state.resolving key (state.rules.find key) =
              some (.rule key target none) := by
            rw [HashState.resolving, htable.rule, htarget, HashState.prior, htable.replaced]
            rfl
          rw [Option.bind_some, hresolving, hpiece, feedInput_of_rule visit hother]
          refine Ensures.bind (visitOverall_sound hvisit hindexed.sound
            (fun above hmem => habove above hmem target hleads) (by simp)) ?_
          rintro ⟨next, d⟩ ⟨hnext, hgrows, hash, hhash, rfl⟩
          exact Ensures.pure ((hindexed.move hnext hgrows).feedNode hhash key target)

/-- One iteration of the loop over the visibility feeds the pieces of its label. -/
theorem visibilityStep_sound (hnode : context.nodes[name]? = some node)
    {visit : HashContext.Visit D} {path : List String}
    (hvisit : Understood context start visit path)
    (habove : ∀ above ∈ path, ∀ target, Leads (context.pieces start) name target →
      TransGen (Leads (context.pieces start)) above target)
    {base : StringMap (TargetDigest D)} {done : List (Piece String String)}
    {state : HashState D} {builder : TargetDigestBuilder}
    (h : FedPieces context start base done (state, builder)) {packageGroup : String}
    (hgroup : packageGroup ∈ context.visibilityOf node.rule) :
    Ensures (FedPieces context start base
        (done ++ context.groupPieces start node.rule.name packageGroup))
      (context.visibilityStep visit node.rule.name path (state, builder) packageGroup) := by
  have htable := h.sound.table
  have hpieces : ∀ group, packageGroup ≠ targetLabel node.rule.name →
      context.groupOf start packageGroup = some group →
      context.groupPieces start node.rule.name packageGroup =
        [.text (utf8 packageGroup), .node group] := by
    intro group hother hfound
    rw [HashContext.groupPieces, if_neg hother, hfound]
  rw [HashContext.visibilityStep_eq, htable.groupOf]
  split_ifs with hself
  · rw [HashContext.groupPieces, if_pos hself, List.append_nil]
    exact Ensures.ok h
  · cases hfound : context.groupOf start packageGroup with
    | none =>
        rw [HashContext.groupPieces, if_neg hself, hfound, List.append_nil]
        exact Ensures.ok h
    | some group =>
        rw [hpieces group hself hfound]
        have hleads : Leads (context.pieces start) name group := by
          rw [leads_iff hnode, HashContext.rulePieces]
          refine List.mem_append_right _ (List.mem_flatMap.mpr ⟨packageGroup, hgroup, ?_⟩)
          rw [hpieces group hself hfound]
          exact List.mem_cons_of_mem _ List.mem_cons_self
        have hprior : ∀ d, (state.completed (state.rules.find packageGroup) packageGroup).map
            (·.overall) = some d → ∃ hash, hashesOf state.digests group = some hash ∧
              hash.overall = d := by
          intro d hd
          rw [HashState.completed, htable.replaced, Option.none_or, htable.rule] at hd
          obtain ⟨digest, hdigest, rfl⟩ := Option.map_eq_some_iff.mp hd
          obtain ⟨own, hown, hcell⟩ := Option.bind_eq_some_iff.mp hdigest
          obtain ⟨hrule, -⟩ := Option.filter_eq_some_iff.mp hown
          obtain ⟨hrule', -⟩ := Option.filter_eq_some_iff.mp hfound
          obtain rfl : own = group := Option.some.inj (hrule.symm.trans hrule')
          exact ⟨⟨digest.direct, digest.overall⟩, by rw [hashesOf, hcell]; rfl, rfl⟩
        dsimp only
        refine Ensures.bind (visitOverall_sound hvisit h.sound
          (fun above hmem => habove above hmem group hleads) hprior) ?_
        rintro ⟨next, d⟩ ⟨hnext, hgrows, hash, hhash, rfl⟩
        have hfed := ((h.feedText (utf8 packageGroup)).move hnext hgrows).feedNode hhash
          packageGroup packageGroup
        rw [List.append_assoc] at hfed
        exact Ensures.pure hfed

/-- A rule that has been fed its pieces is finished with their hash. -/
theorem finishNode_sound (hstart : StartOk context start)
    (hnode : context.nodes[name]? = some node) {base : StringMap (TargetDigest D)}
    {fed : HashState D × TargetDigestBuilder}
    (h : FedPieces context start base (context.rulePieces start node) fed) :
    MerkleState context start (HashContext.finishNode fed.1 node.rule.name fed.2).1 ∧
      Keeps base (HashContext.finishNode fed.1 node.rule.name fed.2).1.digests ∧
      hashesOf (HashContext.finishNode fed.1 node.rule.name fed.2).1.digests name =
        some ⟨(HashContext.finishNode fed.1 node.rule.name fed.2).2.direct,
          (HashContext.finishNode fed.1 node.rule.name fed.2).2.overall⟩ := by
  obtain rfl := hstart.keyed hnode
  obtain ⟨state, builder⟩ := fed
  have hpieces : context.pieces start node.rule.name = context.rulePieces start node := by
    rw [HashContext.pieces, hnode]
    rfl
  have hdirect : builder.directHasher = ownText (context.content start)
      (context.pieces start node.rule.name) := hpieces ▸ h.direct
  have hoverall : builder.overallHasher = belowText (hashesOf state.digests)
      (context.pieces start node.rule.name) := hpieces ▸ h.overall
  have hnew : hashesOf (HashContext.finishNode state node.rule.name builder).1.digests
      node.rule.name = some ⟨(HashContext.finishNode state node.rule.name builder).2.direct,
        (HashContext.finishNode state node.rule.name builder).2.overall⟩ := by
    simp [hashesOf, HashContext.finishNode]
  have hother : ∀ other, other ≠ node.rule.name →
      hashesOf (HashContext.finishNode state node.rule.name builder).1.digests other =
        hashesOf state.digests other := by
    intro other hne
    simp [hashesOf, HashContext.finishNode, Std.ExtTreeMap.getElem?_insert, hne.symm]
  obtain ⟨hhashed, hgrows⟩ := h.sound.hashed.add (by rw [← hdirect]; rfl)
    (by rw [hpieces]; exact h.closed) (by rw [← hoverall]; rfl) hnew hother
  refine ⟨⟨h.sound.table.of_same rfl rfl, h.sound.bzl, hhashed, ?_⟩, h.grows.trans hgrows, hnew⟩
  intro other otherNode group entry hother hgroup hentry
  exact (h.sound.cache hother hgroup hentry).mono hgrows

/-- What comes before the loops: some inputs may have been fed as one. -/
theorem enterStart_sound (hstart : StartOk context start)
    (hnode : context.nodes[name]? = some node) {state : HashState D}
    (h : MerkleState context start state) {first : HashState D × TargetDigestBuilder}
    {inputs : List String} (hfirst : context.enterStart state node = .ok (first, inputs)) :
    ∃ fedInputs, fedInputs ++ inputs = context.allInputs node ∧
      FedPieces context start state.digests (.text (context.startText node) ::
        fedInputs.flatMap (context.inputPieces start node)) first := by
  obtain ⟨⟨mid, builder⟩, hbegun, hfirst⟩ := bind_eq_ok hfirst
  obtain ⟨hfed, hdigests⟩ := startDigest_sound h node _ hbegun
  dsimp only at hfirst hdigests
  cases hgroup : node.prepared.sharedInputs with
  | none =>
      rw [hgroup] at hfirst
      cases hfirst
      refine ⟨[], ?_, hfed⟩
      rw [HashContext.allInputs, hgroup]
      exact (List.append_nil _).symm
  | some group =>
      rw [hgroup] at hfirst
      dsimp only at hfirst
      have hall : context.allInputs node = context.inputsOf node ++ group.labels := by
        rw [HashContext.allInputs, hgroup]
        rfl
      rw [hall]
      cases happly : HashContext.applyRepositoryInputs mid group builder with
      | none =>
          rw [happly] at hfirst
          cases hfirst
          exact ⟨[], rfl, hfed⟩
      | some fed =>
          rw [happly] at hfirst
          cases hfirst
          refine ⟨group.labels, ?_, applyRepositoryInputs_sound hstart hnode hgroup hfed happly⟩
          rw [(hstart.hubs hnode hgroup).1, List.append_nil, List.nil_append]

/-- Entering a rule feeds its pieces and finishes it. -/
theorem enterNode_sound (hstart : StartOk context start) (hacyclic : Acyclic context start)
    (hnode : context.nodes[name]? = some node) {visit : HashContext.Visit D} {path : List String}
    (hvisit : Understood context start visit (node.rule.name :: path))
    (habove : ∀ above ∈ path, TransGen (Leads (context.pieces start)) above name)
    (hpath : ∀ above ∈ path, (start.rules.find above).rule = some above) {state : HashState D}
    (h : MerkleState context start state) :
    Ensures (fun done => MerkleState context start done.1 ∧ Keeps state.digests done.1.digests ∧
      hashesOf done.1.digests name = some ⟨done.2.direct, done.2.overall⟩)
      (context.enterNode visit node path state) := by
  have hname := hstart.keyed hnode
  have habove' : ∀ above ∈ node.rule.name :: path, ∀ target,
      Leads (context.pieces start) name target →
        TransGen (Leads (context.pieces start)) above target := by
    intro above hmem target hleads
    rcases List.mem_cons.mp hmem with rfl | hmem
    · rw [hname]
      exact TransGen.single hleads
    · exact (habove above hmem).tail hleads
  have hpath' : ∀ above ∈ node.rule.name :: path, (start.rules.find above).rule = some above := by
    intro above hmem
    rcases List.mem_cons.mp hmem with rfl | hmem
    · rw [hname]
      exact hstart.own hnode
    · exact hpath above hmem
  rw [HashContext.enterNode_eq]
  intro result hresult
  obtain ⟨⟨first, inputs⟩, hfirst, hresult⟩ := bind_eq_ok hresult
  obtain ⟨fedInputs, hinputs, hfed⟩ := enterStart_sound hstart hnode h hfirst
  obtain ⟨-, more, hmore⟩ := HashContext.enterStart_rules hfirst
  dsimp only at hresult
  have hloop : Ensures (FedPieces context start state.digests (.text (context.startText node) ::
      (context.allInputs node).flatMap (context.inputPieces start node)))
      (inputs.zipIdx.foldlM (context.inputStep visit node (node.rule.name :: path)) first) := by
    have hsteps : Ensures (FedPieces context start state.digests
        (.text (context.startText node) :: (fedInputs ++ inputs.zipIdx.map (·.1)).flatMap
          (context.inputPieces start node)))
        (inputs.zipIdx.foldlM (context.inputStep visit node (node.rule.name :: path)) first) := by
      refine Ensures.foldlM_done (Q := fun (before : List (String × Nat)) fed =>
        FedPieces context start state.digests (.text (context.startText node) ::
          (fedInputs ++ before.map (·.1)).flatMap (context.inputPieces start node)) fed) ?_ ?_
      · rintro before item after hsplit ⟨mid, builder⟩ hmid
        have hitem : item ∈ inputs.zipIdx := by
          rw [hsplit]
          exact List.mem_append_right _ List.mem_cons_self
        have hall : item.1 ∈ context.allInputs node := by
          rw [← hinputs]
          exact List.mem_append_right _ (List.fst_mem_of_mem_zipIdx hitem)
        have hnext := inputStep_sound hstart hacyclic hnode hvisit habove' hpath' hmid
          (hmore ▸ hitem) hall
        rw [List.map_append, ← List.append_assoc, List.flatMap_append]
        simpa using hnext
      · rw [List.map_nil, List.append_nil]
        exact hfed
    have hmap : inputs.zipIdx.map (·.1) = inputs := List.zipIdx_map_fst 0 inputs
    rw [hmap, hinputs] at hsteps
    exact hsteps
  obtain ⟨done, hdone, hresult⟩ := bind_eq_ok hresult
  have hgroups : Ensures (FedPieces context start state.digests (context.rulePieces start node))
      ((context.visibilityOf node.rule).foldlM (context.visibilityStep visit node.rule.name
        (node.rule.name :: path)) done) := by
    refine Ensures.foldlM_done (Q := fun before fed => FedPieces context start state.digests
      ((.text (context.startText node) :: (context.allInputs node).flatMap
        (context.inputPieces start node)) ++ before.flatMap
          (context.groupPieces start node.rule.name)) fed) ?_ ?_
    · rintro before packageGroup after hsplit ⟨mid, builder⟩ hmid
      have hgroup : packageGroup ∈ context.visibilityOf node.rule := by
        rw [hsplit]
        exact List.mem_append_right _ List.mem_cons_self
      have hnext := visibilityStep_sound hnode hvisit habove' hmid hgroup
      rw [List.flatMap_append, List.flatMap_singleton, ← List.append_assoc]
      exact hnext
    · rw [List.flatMap_nil, List.append_nil]
      exact hloop done hdone
  obtain ⟨fed, hfedAll, hresult⟩ := bind_eq_ok hresult
  obtain rfl := Except.ok.inj hresult
  exact finishNode_sound hstart hnode (hgroups fed hfedAll)

end Node

/-- A visit hashes every rule that all the rules on the path lead to. -/
theorem nodeDigest_sound (hstart : StartOk context start) (hacyclic : Acyclic context start)
    (fuel : Nat) {path : List String}
    (hpath : ∀ above ∈ path, (start.rules.find above).rule = some above) :
    Understood context start (context.nodeDigest fuel) path := by
  induction fuel generalizing path with
  | zero => exact fun _ _ _ _ => Ensures.error _
  | succ fuel ih =>
      intro name state h habove
      rw [HashContext.nodeDigest, HashContext.nodeStep]
      cases hdigest : state.digests[name]? with
      | some d =>
          refine Ensures.pure ⟨h, Keeps.refl _, ?_⟩
          rw [hashesOf, hdigest]
          rfl
      | none =>
          cases hnode : context.nodes[name]? with
          | none => exact Ensures.error _
          | some node =>
              dsimp only
              split_ifs with hmem
              · exact absurd (habove name hmem) (hacyclic name)
              · have hinner : ∀ above ∈ node.rule.name :: path,
                    (start.rules.find above).rule = some above := by
                  intro above hmem
                  rcases List.mem_cons.mp hmem with rfl | hmem
                  · rw [hstart.keyed hnode]
                    exact hstart.own hnode
                  · exact hpath above hmem
                exact enterNode_sound hstart hacyclic hnode (ih hinner) habove hpath h

/-- A key is hashed as the rule it stands for. -/
theorem ruleDigest_sound (hstart : StartOk context start) (hacyclic : Acyclic context start)
    {state : HashState D} (h : MerkleState context start state) (key : String) :
    Ensures (fun done => MerkleState context start done.1 ∧ Keeps state.digests done.1.digests ∧
      ∃ name, (start.rules.find key).rule = some name ∧
        hashesOf done.1.digests name = some ⟨done.2.direct, done.2.overall⟩)
      (context.ruleDigest state key) := by
  rw [HashContext.ruleDigest_eq, HashState.prior, h.table.replaced]
  intro done hdone
  obtain ⟨name, hname, hdone⟩ := bind_eq_ok hdone
  have hvisit := nodeDigest_sound hstart hacyclic context.depth
    (show ∀ above ∈ ([] : List String), (start.rules.find above).rule = some above by simp)
  obtain ⟨hsound, hgrows, hhash⟩ := hvisit name state h (by simp) done hdone
  exact ⟨hsound, hgrows, name, (h.table.rule key).symm.trans (okOr_eq_ok hname), hhash⟩

end Steps

/-! ## A whole run -/

/-- What a target is filed with: the hashes of the rule it stands for, or the content of a
source. -/
def Means (context : HashContext D) (start : HashState D) (hashes : String → Option (Hashes D))
    (keyed : KeyedDigest D) : HashTarget → Prop
  | .rule key => keyed.key = key ∧ keyed.kind = "Rule" ∧
      ∃ name, (start.rules.find key).rule = some name ∧
        hashes name = some ⟨keyed.digest.direct, keyed.digest.overall⟩
  | .generated key generatingRule => keyed.key = key ∧ keyed.kind = "GeneratedFile" ∧
      ∃ name, (start.rules.find generatingRule).rule = some name ∧
        hashes name = some ⟨keyed.digest.direct, keyed.digest.overall⟩
  | .source label => keyed.key = label ∧ keyed.kind = "SourceFile" ∧
      keyed.digest.overall = sourceTargetDigest (start.rules.find label).source context.seedHash
        context.packageBzlSeeds[labelPackage label]? ∧
      keyed.digest.direct = keyed.digest.overall

theorem Means.mono {context : HashContext D} {start : HashState D}
    {hashes hashes' : String → Option (Hashes D)}
    (hkept : ∀ name hash, hashes name = some hash → hashes' name = some hash)
    {keyed : KeyedDigest D} {target : HashTarget} (h : Means context start hashes keyed target) :
    Means context start hashes' keyed target := by
  cases target with
  | rule key =>
      obtain ⟨hkey, hkind, name, hname, hhash⟩ := h
      exact ⟨hkey, hkind, name, hname, hkept name _ hhash⟩
  | generated key generatingRule =>
      obtain ⟨hkey, hkind, name, hname, hhash⟩ := h
      exact ⟨hkey, hkind, name, hname, hkept name _ hhash⟩
  | source label => exact h

/-- A target is filed under its own name, with its own kind. -/
theorem Means.key_kind {context : HashContext D} {start : HashState D}
    {hashes : String → Option (Hashes D)} {keyed : KeyedDigest D} {target : HashTarget}
    (h : Means context start hashes keyed target) :
    keyed.key = target.label ∧ keyed.kind = target.kind := by
  cases target with
  | rule key => exact ⟨h.1, h.2.1⟩
  | generated key generatingRule => exact ⟨h.1, h.2.1⟩
  | source label => exact ⟨h.1, h.2.1⟩

/-- A run files every target with what it means. -/
theorem run_means {prepared : Prepared D} (hstart : StartOk prepared.context prepared.state)
    (hacyclic : Acyclic prepared.context prepared.state)
    (hfirst : MerkleState prepared.context prepared.state prepared.state)
    (hsources : ∀ label, .source label ∈ prepared.targets →
      (prepared.state.rules.find label).source.isSome = true) :
    Ensures (fun done => MerkleState prepared.context prepared.state done.1 ∧
      List.Forall₂ (Means prepared.context prepared.state (hashesOf done.1.digests)) done.2
        prepared.targets) prepared.run := by
  have hstep : ∀ target ∈ prepared.targets, ∀ state,
      MerkleState prepared.context prepared.state state →
      Ensures (fun done => MerkleState prepared.context prepared.state done.1 ∧
        Keeps state.digests done.1.digests ∧
        Means prepared.context prepared.state (hashesOf done.1.digests) done.2 target)
        (hashTarget prepared.context state target) := by
    intro target htarget state hstate
    cases target with
    | rule key =>
        refine Ensures.bind (ruleDigest_sound hstart hacyclic hstate key) ?_
        rintro ⟨next, d⟩ ⟨hnext, hgrows, name, hname, hhash⟩
        exact Ensures.pure ⟨hnext, hgrows, rfl, rfl, name, hname, hhash⟩
    | generated key generatingRule =>
        refine Ensures.bind (ruleDigest_sound hstart hacyclic hstate generatingRule) ?_
        rintro ⟨next, d⟩ ⟨hnext, hgrows, name, hname, hhash⟩
        exact Ensures.pure ⟨hnext, hgrows, rfl, rfl, name, hname, hhash⟩
    | source label =>
        obtain ⟨d, hd⟩ := Option.isSome_iff_exists.mp (hsources label htarget)
        refine Ensures.ok ⟨hstate, Keeps.refl _, rfl, rfl, ?_, rfl⟩
        rw [hstate.table.source_of_start hd, hd]
  apply Ensures.foldlM_done (Q := fun before (done : HashState D × List (KeyedDigest D)) =>
    MerkleState prepared.context prepared.state done.1 ∧
      List.Forall₂ (Means prepared.context prepared.state (hashesOf done.1.digests)) done.2 before)
  · rintro before target after hsplit ⟨state, digests⟩ ⟨hstate, hdone⟩
    have htarget : target ∈ prepared.targets := by
      rw [hsplit]
      exact List.mem_append_right _ List.mem_cons_self
    refine Ensures.bind (hstep target htarget state hstate) ?_
    rintro ⟨next, keyed⟩ ⟨hnext, hgrows, hkeyed⟩
    exact Ensures.pure ⟨hnext,
      List.rel_append (hdone.imp fun _ _ h => h.mono hgrows) (.cons hkeyed .nil)⟩
  · exact ⟨hfirst, .nil⟩

end BazelDiff
