/-
# Hashes over a graph

A node of a graph is hashed from pieces: fixed text, the contents of sources, and the hashes
of other nodes. It has two hashes, one of its own text and sources, and one that covers what
it leads to as well. When the graph has no cycle and different texts have different digests,
two sets of contents give a node different hashes exactly when they differ at a source that
can be reached from it.
-/

import Mathlib.Logic.Relation
import Mathlib.Order.WellFoundedSet
import BazelDiff.Lib.Digest

namespace HashGraph

open HashFunction

/-- One piece of what a node is hashed from. -/
inductive Piece (S N : Type)
  | text (fed : List UInt8)
  | source (label : S)
  | node (name : N)

/-- The two hashes of a node. -/
structure Hashes (D : Type) where
  /-- Of its own text and sources. -/
  own : D
  /-- Of what it leads to as well. -/
  overall : D

variable {S N D : Type} [HashFunction D]

/-- The bytes of a digest that may be missing. -/
def optionBytes (d : Option D) : List UInt8 :=
  (d.map bytes).getD []

namespace Piece

/-- What a piece adds to the text of its own node. -/
def own (contents : S → Option D) : Piece S N → List UInt8
  | .text fed => fed
  | .source label => optionBytes (contents label)
  | .node _ => []

/-- What a piece adds from below its node. -/
def below (hashes : N → Option (Hashes D)) : Piece S N → List UInt8
  | .node name => optionBytes ((hashes name).map (·.overall))
  | _ => []

/-- The piece, with its source under another name. -/
def mapSource {T : Type} (rename : S → T) : Piece S N → Piece T N
  | .text fed => .text fed
  | .source label => .source (rename label)
  | .node name => .node name

end Piece

/-- The text a node's own hash is the digest of. -/
def ownText (contents : S → Option D) (pieces : List (Piece S N)) : List UInt8 :=
  pieces.flatMap (·.own contents)

/-- The hashes from below a node, as text. -/
def belowText (hashes : N → Option (Hashes D)) (pieces : List (Piece S N)) : List UInt8 :=
  pieces.flatMap (·.below hashes)

/-- Nodes with the hashes of their pieces; what a node leads to comes with it. -/
structure Merkle (pieces : N → List (Piece S N)) (contents : S → Option D)
    (hashes : N → Option (Hashes D)) : Prop where
  own : ∀ {name : N} {h : Hashes D}, hashes name = some h →
    h.own = digest (ownText contents (pieces name))
  closed : ∀ {name : N} {h : Hashes D}, hashes name = some h →
    ∀ target, .node target ∈ pieces name → (hashes target).isSome = true
  overall : ∀ {name : N} {h : Hashes D}, hashes name = some h →
    h.overall = digest (belowText hashes (pieces name) ++ bytes h.own)

/-- An edge of the graph. -/
def Leads (pieces : N → List (Piece S N)) (name target : N) : Prop :=
  .node target ∈ pieces name

/-- One of the node's own sources has another content. -/
def Touched (pieces : N → List (Piece S N)) (contents contents' : S → Option D) (name : N) :
    Prop :=
  ∃ label, .source label ∈ pieces name ∧ contents label ≠ contents' label

/-- A source with another content can be reached from the node. -/
def Reached (pieces : N → List (Piece S N)) (contents contents' : S → Option D) (name : N) :
    Prop :=
  ∃ target, Relation.ReflTransGen (Leads pieces) name target ∧
    Touched pieces contents contents' target

/-- A graph whose edges go down in rank has no cycle. -/
theorem acyclic_of_rank {pieces : N → List (Piece S N)} (rank : N → Nat)
    (hrank : ∀ name target, Leads pieces name target → rank target < rank name) (name : N) :
    ¬ Relation.TransGen (Leads pieces) name name := by
  have hless : ∀ {a b : N}, Relation.TransGen (Leads pieces) a b → rank b < rank a := by
    intro a b hpath
    induction hpath with
    | single hedge => exact hrank _ _ hedge
    | tail _ hedge ih => exact (hrank _ _ hedge).trans ih
  exact fun hcycle => lt_irrefl _ (hless hcycle)

/-! ## Texts made of pieces -/

/-- The text below a node depends on the hashes of what the node leads to. -/
theorem belowText_congr {hashes hashes' : N → Option (Hashes D)}
    {pieces : List (Piece S N)}
    (h : ∀ target, .node target ∈ pieces → hashes target = hashes' target) :
    belowText hashes pieces = belowText hashes' pieces := by
  apply List.flatMap_congr
  intro piece hpiece
  cases piece with
  | text fed => rfl
  | source label => rfl
  | node target => rw [Piece.below, Piece.below, h target hpiece]

section Rename

variable {T : Type} (rename : S → T) (pieces : List (Piece S N))

theorem ownText_mapSource (contents : T → Option D) :
    ownText contents (pieces.map (Piece.mapSource rename)) =
      ownText (fun label => contents (rename label)) pieces := by
  rw [ownText, ownText, List.flatMap_map]
  apply List.flatMap_congr
  intro piece _
  cases piece <;> rfl

theorem belowText_mapSource (hashes : N → Option (Hashes D)) :
    belowText hashes (pieces.map (Piece.mapSource rename)) = belowText hashes pieces := by
  rw [belowText, belowText, List.flatMap_map]
  apply List.flatMap_congr
  intro piece _
  cases piece <;> rfl

omit [HashFunction D] in
theorem node_mem_mapSource (target : N) :
    Piece.node target ∈ pieces.map (Piece.mapSource rename) ↔ Piece.node target ∈ pieces := by
  rw [List.mem_map]
  constructor
  · rintro ⟨piece, hpiece, heq⟩
    cases piece with
    | text fed => cases heq
    | source label => cases heq
    | node name =>
        obtain rfl := Piece.node.inj heq
        exact hpiece
  · exact fun h => ⟨.node target, h, rfl⟩

end Rename

/-- Hashes are those of any pieces that feed the same texts and lead to the same nodes. -/
theorem Merkle.of_texts {T : Type} {pieces : N → List (Piece S N)} {pieces' : N → List (Piece T N)}
    {contents : S → Option D} {contents' : T → Option D} {hashes : N → Option (Hashes D)}
    (h : Merkle pieces contents hashes)
    (hown : ∀ name, ownText contents (pieces name) = ownText contents' (pieces' name))
    (hbelow : ∀ name, belowText hashes (pieces name) = belowText hashes (pieces' name))
    (hleads : ∀ name target, Leads pieces' name target → Leads pieces name target) :
    Merkle pieces' contents' hashes where
  own hhash := by rw [h.own hhash, hown]
  closed hhash target htarget := h.closed hhash target (hleads _ _ htarget)
  overall hhash := by rw [h.overall hhash, hbelow]

/-- The hashes of a node may be added once it is known what it leads to: no hash of another
node changes. -/
theorem Merkle.add {pieces : N → List (Piece S N)} {contents : S → Option D}
    {hashes hashes' : N → Option (Hashes D)} (h : Merkle pieces contents hashes) {name : N}
    {new : Hashes D} (hown : new.own = digest (ownText contents (pieces name)))
    (hclosed : ∀ target, .node target ∈ pieces name → (hashes target).isSome = true)
    (hoverall : new.overall = digest (belowText hashes (pieces name) ++ bytes new.own))
    (hnew : hashes' name = some new)
    (hother : ∀ other, other ≠ name → hashes' other = hashes other) :
    Merkle pieces contents hashes' ∧
      ∀ other hash, hashes other = some hash → hashes' other = some hash := by
  have hkept : ∀ other hash, hashes other = some hash → hashes' other = some hash := by
    intro other hash hhash
    by_cases hname : other = name
    · subst hname
      have hsame : hash = new := by
        have hown' : hash.own = new.own := (h.own hhash).trans hown.symm
        have hoverall' : hash.overall = new.overall := by
          rw [h.overall hhash, hoverall, hown']
        obtain ⟨own, overall⟩ := hash
        obtain ⟨newOwn, newOverall⟩ := new
        rw [Hashes.mk.injEq]
        exact ⟨hown', hoverall'⟩
      rw [hsame, hnew]
    · rw [hother other hname, hhash]
  have hsome : ∀ target, (hashes target).isSome = true → hashes' target = hashes target := by
    intro target htarget
    obtain ⟨hash, hhash⟩ := Option.isSome_iff_exists.mp htarget
    rw [hhash, hkept target hash hhash]
  -- A node of the old hashes or the new one: either way the nodes below it are old.
  have hcase : ∀ {other : N} {hash : Hashes D}, hashes' other = some hash →
      hash.own = digest (ownText contents (pieces other)) ∧
        (∀ target, .node target ∈ pieces other → (hashes target).isSome = true) ∧
        hash.overall = digest (belowText hashes (pieces other) ++ bytes hash.own) := by
    intro other hash hhash
    by_cases hname : other = name
    · subst hname
      rw [hnew] at hhash
      obtain rfl := Option.some.inj hhash
      exact ⟨hown, hclosed, hoverall⟩
    · rw [hother other hname] at hhash
      exact ⟨h.own hhash, h.closed hhash, h.overall hhash⟩
  refine ⟨⟨fun hhash => (hcase hhash).1, fun hhash target htarget => ?_, fun hhash => ?_⟩, hkept⟩
  · have htarget' := (hcase hhash).2.1 target htarget
    rw [hsome target htarget']
    exact htarget'
  · obtain ⟨-, hbelow, hoverall'⟩ := hcase hhash
    rw [hoverall', belowText_congr fun target htarget => hsome target (hbelow target htarget)]

/-- Texts are equal when their parts are, if no part can be mistaken for another. -/
theorem flatMap_append_eq_iff {α : Type} {f g : α → List UInt8} {items : List α}
    (hparts : ∀ item ∈ items, ∀ rest rest', f item ++ rest = g item ++ rest' → f item = g item)
    {rest rest' : List UInt8} :
    items.flatMap f ++ rest = items.flatMap g ++ rest' ↔
      (∀ item ∈ items, f item = g item) ∧ rest = rest' := by
  induction items with
  | nil => simp
  | cons item items ih =>
      have htail := ih fun next hnext => hparts next (List.mem_cons_of_mem _ hnext)
      rw [List.flatMap_cons, List.flatMap_cons, List.append_assoc, List.append_assoc]
      constructor
      · intro h
        have hfirst := hparts item List.mem_cons_self _ _ h
        rw [hfirst] at h
        obtain ⟨hall, hrest⟩ := htail.mp (List.append_cancel_left h)
        exact ⟨List.forall_mem_cons.mpr ⟨hfirst, hall⟩, hrest⟩
      · rintro ⟨hall, hrest⟩
        obtain ⟨hfirst, hmore⟩ := List.forall_mem_cons.mp hall
        rw [hfirst, htail.mpr ⟨hmore, hrest⟩]

/-- A digest that is present in both texts can be told from what follows it. -/
theorem optionBytes_append {d d' : Option D} (hshape : d.isSome = d'.isSome)
    {rest rest' : List UInt8} (h : optionBytes d ++ rest = optionBytes d' ++ rest') : d = d' := by
  cases d with
  | none =>
      cases d' with
      | none => rfl
      | some b => cases hshape
  | some a =>
      cases d' with
      | none => cases hshape
      | some b =>
          obtain ⟨rfl, -⟩ := append_inj h
          rfl

theorem optionBytes_eq_iff {d d' : Option D} (hshape : d.isSome = d'.isSome) :
    optionBytes d = optionBytes d' ↔ d = d' := by
  refine ⟨fun h => ?_, fun h => by rw [h]⟩
  have hnil : optionBytes d ++ [] = optionBytes d' ++ [] := by rw [h]
  exact optionBytes_append hshape hnil

/-! ## One set of contents -/

section Unique

variable {pieces : N → List (Piece S N)} {contents : S → Option D}
  {hashes hashes' : N → Option (Hashes D)}

omit [HashFunction D] in
/-- An induction from what a node leads to, over the finitely many nodes that are hashed. -/
theorem induction_of_acyclic (hacyclic : ∀ name, ¬ Relation.TransGen (Leads pieces) name name)
    (hfinite : {name | (hashes name).isSome = true}.Finite) {P : N → Prop}
    (hstep : ∀ name, (hashes name).isSome = true →
      (∀ target, Leads pieces name target → (hashes target).isSome = true → P target) → P name)
    {name : N} (hname : (hashes name).isSome = true) : P name := by
  have horder : IsStrictOrder N fun target name => Relation.TransGen (Leads pieces) name target :=
    { irrefl := hacyclic
      trans := fun _ _ _ hab hbc => hbc.trans hab }
  have hwellFounded := hfinite.wellFoundedOn (r := fun target name =>
    Relation.TransGen (Leads pieces) name target)
  refine hwellFounded.induction (P := P) hname ?_
  intro name hname ih
  exact hstep name hname fun target hedge htarget =>
    ih target htarget (Relation.TransGen.single hedge)

/-- In a graph without cycles a node has one hash. -/
theorem Merkle.unique (h : Merkle pieces contents hashes) (h' : Merkle pieces contents hashes')
    (hacyclic : ∀ name, ¬ Relation.TransGen (Leads pieces) name name)
    (hfinite : {name | (hashes name).isSome = true}.Finite) {name : N} {a b : Hashes D}
    (ha : hashes name = some a) (hb : hashes' name = some b) : a = b := by
  have hname : (hashes name).isSome = true := by rw [ha]; rfl
  revert a b ha hb
  refine induction_of_acyclic hacyclic hfinite (P := fun name => ∀ {a b : Hashes D},
    hashes name = some a → hashes' name = some b → a = b) ?_ hname
  intro name _ ih a b ha hb
  have hown : a.own = b.own := (h.own ha).trans (h'.own hb).symm
  have hbelow : belowText hashes (pieces name) = belowText hashes' (pieces name) := by
    apply belowText_congr
    intro target hedge
    have htarget := h.closed ha target hedge
    obtain ⟨c, hc⟩ := Option.isSome_iff_exists.mp htarget
    obtain ⟨d, hd⟩ := Option.isSome_iff_exists.mp (h'.closed hb target hedge)
    rw [hc, hd, ih target hedge htarget hc hd]
  have hoverall : a.overall = b.overall := by
    rw [h.overall ha, h'.overall hb, hbelow, hown]
  obtain ⟨own, overall⟩ := a
  obtain ⟨own', overall'⟩ := b
  rw [Hashes.mk.injEq]
  exact ⟨hown, hoverall⟩

end Unique

/-! ## Two sets of contents -/

section Changes

variable {pieces : N → List (Piece S N)} {contents contents' : S → Option D}
  {hashes hashes' : N → Option (Hashes D)}

/-- A node's own hash changes with the contents of its own sources. -/
theorem Merkle.own_eq_iff (hinj : Function.Injective (digest : List UInt8 → D))
    (h : Merkle pieces contents hashes) (h' : Merkle pieces contents' hashes') {name : N}
    (hshape : ∀ label, .source label ∈ pieces name →
      (contents label).isSome = (contents' label).isSome)
    {a b : Hashes D} (ha : hashes name = some a) (hb : hashes' name = some b) :
    a.own = b.own ↔ ¬ Touched pieces contents contents' name := by
  have hparts : ∀ piece ∈ pieces name, ∀ rest rest',
      piece.own contents ++ rest = piece.own contents' ++ rest' →
        piece.own contents = piece.own contents' := by
    intro piece hpiece rest rest' heq
    cases piece with
    | text fed => rfl
    | source label => exact congrArg optionBytes (optionBytes_append (hshape label hpiece) heq)
    | node target => rfl
  have htext : (pieces name).flatMap (Piece.own contents) =
      (pieces name).flatMap (Piece.own contents') ↔
      ∀ piece ∈ pieces name, piece.own contents = piece.own contents' := by
    rw [← List.append_nil ((pieces name).flatMap (Piece.own contents)),
      ← List.append_nil ((pieces name).flatMap (Piece.own contents')),
      flatMap_append_eq_iff hparts, and_iff_left rfl]
  rw [h.own ha, h'.own hb, hinj.eq_iff, ownText, ownText, htext, Touched]
  push Not
  constructor
  · intro hall label hlabel
    exact (optionBytes_eq_iff (hshape label hlabel)).mp (hall _ hlabel)
  · intro hall piece hpiece
    cases piece with
    | text fed => rfl
    | source label => exact congrArg optionBytes (hall label hpiece)
    | node target => rfl

/-- A node's overall hash changes with its own one and with those it leads to. -/
theorem Merkle.overall_eq_iff (hinj : Function.Injective (digest : List UInt8 → D))
    (h : Merkle pieces contents hashes) (h' : Merkle pieces contents' hashes') {name : N}
    {a b : Hashes D} (ha : hashes name = some a) (hb : hashes' name = some b) :
    a.overall = b.overall ↔ a.own = b.own ∧ ∀ target, Leads pieces name target →
      (hashes target).map (·.overall) = (hashes' target).map (·.overall) := by
  have hshape : ∀ target, Leads pieces name target →
      ((hashes target).map (·.overall)).isSome = ((hashes' target).map (·.overall)).isSome := by
    intro target htarget
    rw [Option.isSome_map, Option.isSome_map, h.closed ha target htarget,
      h'.closed hb target htarget]
  have hparts : ∀ piece ∈ pieces name, ∀ rest rest',
      piece.below hashes ++ rest = piece.below hashes' ++ rest' →
        piece.below hashes = piece.below hashes' := by
    intro piece hpiece rest rest' heq
    cases piece with
    | text fed => rfl
    | source label => rfl
    | node target => exact congrArg optionBytes (optionBytes_append (hshape target hpiece) heq)
  rw [h.overall ha, h'.overall hb, hinj.eq_iff, belowText, belowText, flatMap_append_eq_iff hparts,
    bytes_injective.eq_iff, and_comm]
  refine and_congr_right fun _ => ⟨fun hall target htarget => ?_, fun hall piece hpiece => ?_⟩
  · exact (optionBytes_eq_iff (hshape target htarget)).mp (hall _ htarget)
  · cases piece with
    | text fed => rfl
    | source label => rfl
    | node target => exact congrArg optionBytes (hall target hpiece)

omit [HashFunction D] in
/-- A change is reached from a node in its own sources or through what it leads to. -/
theorem reached_iff (name : N) :
    Reached pieces contents contents' name ↔ Touched pieces contents contents' name ∨
      ∃ target, Leads pieces name target ∧ Reached pieces contents contents' target := by
  constructor
  · rintro ⟨target, hpath, htouched⟩
    rcases Relation.ReflTransGen.cases_head hpath with rfl | ⟨next, hedge, hpath⟩
    · exact Or.inl htouched
    · exact Or.inr ⟨next, hedge, target, hpath, htouched⟩
  · rintro (htouched | ⟨next, hedge, target, hpath, htouched⟩)
    · exact ⟨name, Relation.ReflTransGen.refl, htouched⟩
    · exact ⟨target, Relation.ReflTransGen.head hedge hpath, htouched⟩

/-- In a graph without cycles the overall hash of a node changes exactly when a changed source
can be reached from it. -/
theorem Merkle.overall_eq_iff_reached (hinj : Function.Injective (digest : List UInt8 → D))
    (h : Merkle pieces contents hashes) (h' : Merkle pieces contents' hashes')
    (hacyclic : ∀ name, ¬ Relation.TransGen (Leads pieces) name name)
    (hfinite : {name | (hashes name).isSome = true}.Finite)
    (hshape : ∀ name label, .source label ∈ pieces name →
      (contents label).isSome = (contents' label).isSome)
    {name : N} {a b : Hashes D} (ha : hashes name = some a) (hb : hashes' name = some b) :
    a.overall = b.overall ↔ ¬ Reached pieces contents contents' name := by
  have hname : (hashes name).isSome = true := by rw [ha]; rfl
  revert a b ha hb
  refine induction_of_acyclic hacyclic hfinite (P := fun name => ∀ {a b : Hashes D},
    hashes name = some a → hashes' name = some b →
      (a.overall = b.overall ↔ ¬ Reached pieces contents contents' name)) ?_ hname
  intro name _ ih a b ha hb
  rw [h.overall_eq_iff hinj h' ha hb, h.own_eq_iff hinj h' (hshape name) ha hb, reached_iff, not_or,
    not_exists]
  refine and_congr_right fun _ => forall_congr' fun target => ?_
  rw [not_and]
  refine forall_congr' fun hedge => ?_
  obtain ⟨c, hc⟩ := Option.isSome_iff_exists.mp (h.closed ha target hedge)
  obtain ⟨d, hd⟩ := Option.isSome_iff_exists.mp (h'.closed hb target hedge)
  rw [hc, hd, Option.map_some, Option.map_some, Option.some.injEq]
  exact ih target hedge (h.closed ha target hedge) hc hd

end Changes

end HashGraph
