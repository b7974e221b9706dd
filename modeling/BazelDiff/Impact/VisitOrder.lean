/-
# Distances and the order of the visits

The labels are visited in the order of a hash map, which differs from run to run, and
the visits share one memo. An open label answers zero, and what is computed from such
an answer is remembered for good, so on a cycle the report can depend on which label
of the cycle came first.

It does not depend on it exactly when the cycles are settled: every label on a cycle
of several labels has a hop to something that answers zero in every visit, and a hop
of the cycle inside one package is matched by an anchor there. One direction is the
exactness of the memo. For the other, two runs are compared on one hop around a cycle:
the run that starts where the hop ends, in which the hop meets an open label, and the
run that starts where the hop begins.
-/

import BazelDiff.Impact.ShortestPath
import Mathlib.Data.Finset.Card

namespace BazelDiff

open Relation

section Visits

variable {depEdges : StringMap (List String)} {impactTypes : StringMap ImpactType}

/-! ## Settled cycles -/

theorem Placed.unique {label : String} {distance distance' : Nat × Nat}
    (h : Placed depEdges impactTypes label distance)
    (h' : Placed depEdges impactTypes label distance') : distance = distance' :=
  h.eq.trans h'.eq.symm

/-- With settled cycles all orders end with the same memo. -/
theorem distances_eq_of_settled (hsettled : CyclesSettled depEdges impactTypes)
    {order order' : List String} (horder : order.Perm impactTypes.keys)
    (horder' : order'.Perm impactTypes.keys) :
    distances depEdges impactTypes order = distances depEdges impactTypes order' := by
  have hexact := @distances_exact _ _ hsettled order fun label hlabel =>
    Std.ExtTreeMap.mem_keys.mp (horder.mem_iff.mp hlabel)
  have hexact' := @distances_exact _ _ hsettled order' fun label hlabel =>
    Std.ExtTreeMap.mem_keys.mp (horder'.mem_iff.mp hlabel)
  apply Std.ExtTreeMap.ext_getElem?
  intro label
  have hmem : label ∈ distances depEdges impactTypes order ↔
      label ∈ distances depEdges impactTypes order' :=
    (mem_distances horder label).trans (mem_distances horder' label).symm
  rw [Std.ExtTreeMap.mem_iff_isSome_getElem?, Std.ExtTreeMap.mem_iff_isSome_getElem?] at hmem
  cases hfound : (distances depEdges impactTypes order)[label]? with
  | none =>
      cases hfound' : (distances depEdges impactTypes order')[label]? with
      | none => rfl
      | some distance' => simp [hfound, hfound'] at hmem
  | some distance =>
      cases hfound' : (distances depEdges impactTypes order')[label]? with
      | none => simp [hfound, hfound'] at hmem
      | some distance' =>
          rw [(hexact label distance hfound).unique (hexact' label distance' hfound')]

/-! ## What the first visit leaves behind -/

/-- Recording a new label keeps what was in the memo before. -/
theorem getElem?_insert_of_new {memo memo' : Distances} {label other : String}
    {distance : Nat × Nat} (hnew : label ∉ memo) (h : memo[other]? = some distance)
    (h' : memo'[other]? = some distance) (found : Nat × Nat) :
    (memo'.insert label found)[other]? = some distance := by
  rw [Std.ExtTreeMap.getElem?_insert, if_neg]
  · exact h'
  · rw [compare_eq_iff_eq]
    rintro rfl
    exact hnew (mem_of_getElem? h)

/-- A visit never changes an answer that is in the memo. -/
theorem calculateDistance_keeps (fuel : Nat) (label : String) {memo : Distances}
    (visiting : List String) {other : String} {distance : Nat × Nat}
    (h : memo[other]? = some distance) :
    (calculateDistance depEdges impactTypes fuel label memo visiting).2[other]? =
      some distance := by
  induction fuel using Nat.strong_induction_on generalizing label memo visiting with
  | _ fuel ih =>
      have hvisit := @calculateDistance_visit depEdges impactTypes fuel label memo visiting
      generalize calculateDistance depEdges impactTypes fuel label memo visiting = result
        at hvisit ⊢
      cases hvisit with
      | remembered hmemo => exact h
      | direct hnew hdirect => exact getElem?_insert_of_new hnew h h _
      | opened hnew hopen => exact h
      | unattributed hnew htype hopen hdeps => exact getElem?_insert_of_new hnew h h _
      | exhausted hnew hopen => exact h
      | @searched fuel hnew htype hopen hdeps =>
          apply getElem?_insert_of_new hnew h
          apply @foldl_keeps _ _ _ (fun memo => memo[other]? = some distance) _ _ h
          intro state dep _ hstate
          exact ih fuel (Nat.lt_succ_self fuel) dep _ hstate

/-- The dependencies of remembered labels are remembered or open. -/
def ClosedUpTo (depEdges : StringMap (List String)) (impactTypes : StringMap ImpactType)
    (visiting : List String) (memo : Distances) : Prop :=
  ∀ label ∈ memo, ∀ dep, Expands depEdges impactTypes label dep → dep ∈ memo ∨ dep ∈ visiting

theorem ClosedUpTo.insert {visiting : List String} {memo : Distances} {label : String}
    (h : ClosedUpTo depEdges impactTypes (label :: visiting) memo)
    (hlabel : ∀ dep, Expands depEdges impactTypes label dep →
      dep ∈ memo ∨ dep ∈ label :: visiting) (distance : Nat × Nat) :
    ClosedUpTo depEdges impactTypes visiting (memo.insert label distance) := by
  intro other hother dep hdep
  have hfound : dep ∈ memo ∨ dep ∈ label :: visiting := by
    rcases Std.ExtTreeMap.mem_insert.mp hother with heq | hother
    · rw [compare_eq_iff_eq] at heq
      exact hlabel dep (heq ▸ hdep)
    · exact h other hother dep hdep
  rcases hfound with hmem | hmem
  · exact .inl (Std.ExtTreeMap.mem_insert.mpr (.inr hmem))
  · rcases List.mem_cons.mp hmem with rfl | hmem
    · exact .inl Std.ExtTreeMap.mem_insert_self
    · exact .inr hmem

theorem ClosedUpTo.cons {visiting : List String} {memo : Distances}
    (h : ClosedUpTo depEdges impactTypes visiting memo) (label : String) :
    ClosedUpTo depEdges impactTypes (label :: visiting) memo :=
  fun other hother dep hdep => (h other hother dep hdep).imp_right (List.mem_cons_of_mem _)

/-- After a loop of visits every label is remembered, or was open. -/
theorem foldl_gathers {σ : Type} {f : σ × Distances → String → σ × Distances}
    {labels : List String} {Known : String → Prop}
    (h : ∀ state, ∀ label ∈ labels, Grows impactTypes state.2 (f state label).2 ∧
      (label ∈ (f state label).2 ∨ Known label)) (state : σ × Distances) :
    ∀ label ∈ labels, label ∈ (labels.foldl f state).2 ∨ Known label := by
  induction labels generalizing state with
  | nil => simp
  | cons first rest ih =>
      intro label hlabel
      have hrest : ∀ state, ∀ label ∈ rest, Grows impactTypes state.2 (f state label).2 ∧
          (label ∈ (f state label).2 ∨ Known label) :=
        fun state label hlabel => h state label (List.mem_cons_of_mem _ hlabel)
      rcases List.mem_cons.mp hlabel with rfl | hlabel
      · have hgrows := foldl_grows (fun state label hlabel => (hrest state label hlabel).1)
          (f state label)
        exact (h state label List.mem_cons_self).2.imp_left (hgrows.keeps label)
      · exact ih hrest (f state first) label hlabel

theorem calculateDistance_closed (fuel : Nat) {label : String} (hlabel : label ∈ impactTypes)
    {memo : Distances} {visiting : List String}
    (hfuel : (unvisited impactTypes visiting).length ≤ fuel)
    (h : ClosedUpTo depEdges impactTypes visiting memo) :
    ClosedUpTo depEdges impactTypes visiting
      (calculateDistance depEdges impactTypes fuel label memo visiting).2 := by
  induction fuel using Nat.strong_induction_on generalizing label memo visiting with
  | _ fuel ih =>
      have hvisit := @calculateDistance_visit depEdges impactTypes fuel label memo visiting
      generalize calculateDistance depEdges impactTypes fuel label memo visiting = result
        at hvisit ⊢
      cases hvisit with
      | remembered hmemo => exact h
      | direct hnew hdirect =>
          apply (h.cons label).insert
          intro dep hdep
          rw [hdep.1] at hdirect
          cases hdirect
      | opened hnew hopen => exact h
      | unattributed hnew htype hopen hdeps =>
          apply (h.cons label).insert
          intro dep hdep
          rw [Expands, hdeps] at hdep
          exact absurd hdep.2 List.not_mem_nil
      | exhausted hnew hopen => exact h
      | @searched fuel hnew htype hopen hdeps =>
          have hless := unvisited_cons_length_lt hlabel hopen
          apply ClosedUpTo.insert
          · apply foldl_keeps _ _ (h.cons label)
            intro state dep hdep hstate
            exact ih fuel (Nat.lt_succ_self fuel) (mem_of_mem_impactedDeps hdep) (by omega) hstate
          · intro dep hdep
            refine @foldl_gathers impactTypes _ _ _ (· ∈ label :: visiting) ?_ _ dep hdep.2
            intro state dep hdep
            have hgrows := @calculateDistance_grows depEdges impactTypes fuel dep
              (mem_of_mem_impactedDeps hdep) state.2 (label :: visiting) (by omega)
            refine ⟨hgrows.1, ?_⟩
            by_cases hmem : dep ∈ label :: visiting
            · exact .inr hmem
            · exact .inl (hgrows.2 hmem)

/-- The memo after visiting one label first. -/
def firstVisit (depEdges : StringMap (List String)) (impactTypes : StringMap ImpactType)
    (label : String) : Distances :=
  (calculateDistance depEdges impactTypes impactTypes.keys.length label ∅ []).2

/-- A first visit reaches everything it can. -/
theorem mem_firstVisit {label : String} (hlabel : label ∈ impactTypes) {other : String}
    (hpath : ReflTransGen (Expands depEdges impactTypes) label other) :
    other ∈ firstVisit depEdges impactTypes label := by
  have hfuel : (unvisited impactTypes []).length ≤ impactTypes.keys.length :=
    List.length_filter_le _ _
  have hclosed := @calculateDistance_closed depEdges impactTypes _ _ hlabel ∅ [] hfuel
    fun label hmem => absurd hmem Std.ExtTreeMap.not_mem_empty
  induction hpath with
  | refl =>
      exact (@calculateDistance_grows depEdges impactTypes _ _ hlabel ∅ [] hfuel).2
        List.not_mem_nil
  | tail _ hstep ih => exact (hclosed _ ih _ hstep).resolve_right List.not_mem_nil

/-- Some order visits a given label first. -/
theorem exists_order_first {label : String} (hlabel : label ∈ impactTypes) :
    ∃ order : List String, order.Perm impactTypes.keys ∧ ∀ (other : String) distance,
      (firstVisit depEdges impactTypes label)[other]? = some distance →
      (distances depEdges impactTypes order)[other]? = some distance := by
  refine ⟨label :: impactTypes.keys.erase label,
    (List.perm_cons_erase (Std.ExtTreeMap.mem_keys.mpr hlabel)).symm, ?_⟩
  intro other distance h
  rw [distances, List.foldl_cons]
  have hrun : ∀ (labels : List String) (memo : Distances), memo[other]? = some distance →
      (labels.foldl (fun memo label =>
        (calculateDistance depEdges impactTypes impactTypes.keys.length label memo []).2)
        memo)[other]? = some distance := by
    intro labels
    induction labels with
    | nil => exact fun memo hmemo => hmemo
    | cons first rest ih => exact fun memo hmemo => ih _ (calculateDistance_keeps _ _ _ hmemo)
  exact hrun _ _ h

/-! ## A hop that meets an open label -/

/-- Labels with a hop to the open label `first` are answered by that hop, or better. -/
def NearOpen (depEdges : StringMap (List String)) (impactTypes : StringMap ImpactType)
    (first : String) (memo : Distances) : Prop :=
  ∀ (label : String) distance, memo[label]? = some distance →
    Expands depEdges impactTypes label first →
    distance.1 ≤ 1 ∧ distance.2 ≤ crossing label first

theorem NearOpen.insert {first : String} {memo : Distances}
    (h : NearOpen depEdges impactTypes first memo) {label : String} {distance : Nat × Nat}
    (hlabel : Expands depEdges impactTypes label first →
      distance.1 ≤ 1 ∧ distance.2 ≤ crossing label first) :
    NearOpen depEdges impactTypes first (memo.insert label distance) := by
  intro other found hfound hother
  rw [Std.ExtTreeMap.getElem?_insert] at hfound
  split at hfound
  · next heq =>
      rw [compare_eq_iff_eq] at heq
      subst heq
      cases hfound
      exact hlabel hother
  · exact h other found hfound hother

/-- What every visit of a loop keeps, the loop keeps. -/
theorem visitDeps_keeps {Inv : Distances → Prop} {fuel : Nat} {label : String}
    {memo : Distances} {visiting : List String}
    (hkeeps : ∀ dep ∈ impactedDeps depEdges impactTypes label, ∀ memo, Inv memo →
      Inv (calculateDistance depEdges impactTypes fuel dep memo (label :: visiting)).2)
    (hmemo : Inv memo) : Inv (visitDeps depEdges impactTypes fuel label memo visiting).2 := by
  rw [visitDeps]
  apply foldl_keeps _ _ hmemo
  intro state dep hdep hstate
  exact hkeeps dep hdep state.2 hstate

/-- The loop's minimum is at most what one dependency gives. -/
theorem visitDeps_le {Inv : Distances → Prop} {fuel : Nat} {label dep : String}
    {memo : Distances} {visiting : List String}
    (hdep : dep ∈ impactedDeps depEdges impactTypes label) (hmemo : Inv memo)
    (hkeeps : ∀ other ∈ impactedDeps depEdges impactTypes label, ∀ memo, Inv memo →
      Inv (calculateDistance depEdges impactTypes fuel other memo (label :: visiting)).2)
    (hzero : ∀ memo, Inv memo →
      (calculateDistance depEdges impactTypes fuel dep memo (label :: visiting)).1 = (0, 0)) :
    (visitDeps depEdges impactTypes fuel label memo visiting).1.1 ≤ 1 ∧
      (visitDeps depEdges impactTypes fuel label memo visiting).1.2 ≤ crossing label dep := by
  have hbest : ∀ (deps : List String) (state : (Nat × Nat) × Distances),
      (∀ other ∈ deps, other ∈ impactedDeps depEdges impactTypes label) → Inv state.2 →
      let result := deps.foldl (visitStep depEdges impactTypes fuel label visiting) state
      (result.1.1 ≤ state.1.1 ∧ result.1.2 ≤ state.1.2) ∧
        (dep ∈ deps → result.1.1 ≤ 1 ∧ result.1.2 ≤ crossing label dep) := by
    intro deps
    induction deps with
    | nil => exact fun state _ _ => ⟨⟨Nat.le_refl _, Nat.le_refl _⟩, by simp⟩
    | cons other deps ih =>
        intro state hdeps hstate
        have hother := hkeeps other (hdeps other List.mem_cons_self) state.2 hstate
        obtain ⟨⟨hfirst, hsecond⟩, hrest⟩ := ih
          (visitStep depEdges impactTypes fuel label visiting state other)
          (fun next hnext => hdeps next (List.mem_cons_of_mem _ hnext)) hother
        refine ⟨⟨hfirst.trans (min_le_left _ _), hsecond.trans (min_le_left _ _)⟩, ?_⟩
        intro hmem
        rcases List.mem_cons.mp hmem with rfl | hmem
        · have hanswer := hzero state.2 hstate
          refine ⟨hfirst.trans ((min_le_right _ _).trans ?_),
            hsecond.trans ((min_le_right _ _).trans ?_)⟩
          · rw [hanswer]
            decide
          · rw [hanswer, Nat.zero_add]
        · exact hrest hmem
  exact (hbest _ ((usizeMax, usizeMax), memo) (fun _ h => h) hmemo).2 hdep

theorem calculateDistance_nearOpen (fuel : Nat) (label : String) {first : String}
    {memo : Distances} {visiting : List String} (hfirst : first ∈ visiting)
    (hpending : Pending impactTypes visiting memo)
    (h : NearOpen depEdges impactTypes first memo) :
    NearOpen depEdges impactTypes first
      (calculateDistance depEdges impactTypes fuel label memo visiting).2 := by
  induction fuel using Nat.strong_induction_on generalizing label memo visiting with
  | _ fuel ih =>
      have hvisit := @calculateDistance_visit depEdges impactTypes fuel label memo visiting
      generalize calculateDistance depEdges impactTypes fuel label memo visiting = result
        at hvisit ⊢
      cases hvisit with
      | remembered hmemo => exact h
      | direct hnew hdirect => exact h.insert fun _ => by simp
      | opened hnew hopen => exact h
      | unattributed hnew htype hopen hdeps => exact h.insert fun _ => by simp
      | exhausted hnew hopen => exact h
      | @searched fuel hnew htype hopen hdeps =>
          have hmem : first ∈ label :: visiting := List.mem_cons_of_mem _ hfirst
          have hkeeps : ∀ other ∈ impactedDeps depEdges impactTypes label, ∀ memo,
              (Pending impactTypes (label :: visiting) memo ∧
                NearOpen depEdges impactTypes first memo) →
              Pending impactTypes (label :: visiting)
                  (calculateDistance depEdges impactTypes fuel other memo
                    (label :: visiting)).2 ∧
                NearOpen depEdges impactTypes first
                  (calculateDistance depEdges impactTypes fuel other memo
                    (label :: visiting)).2 := by
            intro other _ memo ⟨hpending, hnear⟩
            exact ⟨calculateDistance_pending fuel other hpending,
              ih fuel (Nat.lt_succ_self fuel) other hmem hpending hnear⟩
          have hstart : Pending impactTypes (label :: visiting) memo ∧
              NearOpen depEdges impactTypes first memo := ⟨hpending.cons hnew htype, h⟩
          have hloop : NearOpen depEdges impactTypes first
              (visitDeps depEdges impactTypes fuel label memo visiting).2 :=
            (visitDeps_keeps hkeeps hstart).2
          apply hloop.insert
          intro hlabel
          apply visitDeps_le hlabel.2 hstart hkeeps
          intro memo ⟨hpending, _⟩
          rw [calculateDistance_opened fuel hpending hmem]

/-- When `first` is visited first, a label that it reaches and that has a hop to it is
answered by that hop. -/
theorem firstVisit_le {first label : String}
    (hfirst : impactTypes[first]? = some .indirect)
    (hpath : ReflTransGen (Expands depEdges impactTypes) first label) (hne : first ≠ label)
    (hback : Expands depEdges impactTypes label first) :
    ∃ distance, (firstVisit depEdges impactTypes first)[label]? = some distance ∧
      distance.1 ≤ 1 ∧ distance.2 ≤ crossing label first := by
  have hmem := mem_firstVisit (mem_of_getElem? hfirst) hpath
  obtain ⟨distance, hdistance⟩ := Option.isSome_iff_exists.mp
    (Std.ExtTreeMap.mem_iff_isSome_getElem?.mp hmem)
  refine ⟨distance, hdistance, ?_⟩
  rw [firstVisit] at hdistance
  have hvisit := @calculateDistance_visit depEdges impactTypes impactTypes.keys.length first ∅ []
  generalize hfuel : impactTypes.keys.length = fuel at hvisit hdistance
  generalize calculateDistance depEdges impactTypes fuel first ∅ [] = result
    at hvisit hdistance
  have hempty : ∀ found : Nat × Nat,
      ((∅ : Distances).insert first found)[label]? = some distance → False := by
    intro found hfound
    rw [Std.ExtTreeMap.getElem?_insert, if_neg] at hfound
    · simp at hfound
    · rw [compare_eq_iff_eq]
      exact hne
  cases hvisit with
  | remembered hmemo => simp at hmemo
  | direct hnew hdirect => exact (hempty _ hdistance).elim
  | opened hnew hopen => exact absurd hopen List.not_mem_nil
  | unattributed hnew htype hopen hdeps => exact (hempty _ hdistance).elim
  | exhausted hnew hopen => simp at hdistance
  | @searched fuel hnew htype hopen hdeps =>
      have hstart : Pending impactTypes [first] ∅ ∧ NearOpen depEdges impactTypes first ∅ := by
        constructor
        · intro label hlabel
          obtain rfl : label = first := by simpa using hlabel
          exact ⟨Std.ExtTreeMap.not_mem_empty, htype⟩
        · intro label distance hfound
          simp at hfound
      have hkeeps : ∀ other ∈ impactedDeps depEdges impactTypes first, ∀ memo,
          (Pending impactTypes [first] memo ∧ NearOpen depEdges impactTypes first memo) →
          Pending impactTypes [first]
              (calculateDistance depEdges impactTypes fuel other memo [first]).2 ∧
            NearOpen depEdges impactTypes first
              (calculateDistance depEdges impactTypes fuel other memo [first]).2 := by
        intro other _ memo ⟨hpending, hnear⟩
        exact ⟨calculateDistance_pending fuel other hpending,
          calculateDistance_nearOpen fuel other List.mem_cons_self hpending hnear⟩
      apply (visitDeps_keeps hkeeps hstart).2 label distance _ hback
      rw [Std.ExtTreeMap.getElem?_insert, if_neg] at hdistance
      · exact hdistance
      · rw [compare_eq_iff_eq]
        exact hne

/-! ## What no visit goes below -/

/-- A bound from below that holds at base labels, is carried along hops, and also holds for
a hop to a label of a cycle through the hop's start. -/
structure IsFloor (depEdges : StringMap (List String)) (impactTypes : StringMap ImpactType)
    (floor : String → Nat × Nat) : Prop where
  base : ∀ label, Base depEdges impactTypes label → floor label = (0, 0)
  hop : ∀ label dep, Expands depEdges impactTypes label dep →
    (floor label).1 ≤ (floor dep).1 + 1 ∧ (floor label).2 ≤ (floor dep).2 + crossing label dep
  cycle : ∀ label dep, Expands depEdges impactTypes label dep →
    ReflTransGen (Expands depEdges impactTypes) dep label →
    (floor label).1 ≤ 1 ∧ (floor label).2 ≤ crossing label dep
  fits : ∀ label, (floor label).1 ≤ usizeMax ∧ (floor label).2 ≤ usizeMax

/-- The answers of the memo are not below the floor. -/
def Above (floor : String → Nat × Nat) (memo : Distances) : Prop :=
  ∀ (label : String) distance, memo[label]? = some distance →
    (floor label).1 ≤ distance.1 ∧ (floor label).2 ≤ distance.2

theorem Above.insert {floor : String → Nat × Nat} {memo : Distances} (h : Above floor memo)
    {label : String} {distance : Nat × Nat}
    (hlabel : (floor label).1 ≤ distance.1 ∧ (floor label).2 ≤ distance.2) :
    Above floor (memo.insert label distance) := by
  intro other found hfound
  rw [Std.ExtTreeMap.getElem?_insert] at hfound
  split at hfound
  · next heq =>
      rw [compare_eq_iff_eq] at heq
      subst heq
      cases hfound
      exact hlabel
  · exact h other found hfound

/-- The loop's minimum is at least what every dependency gives. -/
theorem visitDeps_ge {Inv : Distances → Prop} {fuel : Nat} {label : String} {memo : Distances}
    {visiting : List String} {low : Nat × Nat} (hfits : low.1 ≤ usizeMax ∧ low.2 ≤ usizeMax)
    (hmemo : Inv memo)
    (hvisit : ∀ dep ∈ impactedDeps depEdges impactTypes label, ∀ memo, Inv memo →
      let visit := calculateDistance depEdges impactTypes fuel dep memo (label :: visiting)
      (low.1 ≤ visit.1.1 + 1 ∧ low.2 ≤ visit.1.2 + crossing label dep) ∧ Inv visit.2) :
    low.1 ≤ (visitDeps depEdges impactTypes fuel label memo visiting).1.1 ∧
      low.2 ≤ (visitDeps depEdges impactTypes fuel label memo visiting).1.2 := by
  have hloop : ∀ (deps : List String) (state : (Nat × Nat) × Distances),
      (∀ dep ∈ deps, dep ∈ impactedDeps depEdges impactTypes label) → Inv state.2 →
      low.1 ≤ state.1.1 ∧ low.2 ≤ state.1.2 →
      let result := deps.foldl (visitStep depEdges impactTypes fuel label visiting) state
      low.1 ≤ result.1.1 ∧ low.2 ≤ result.1.2 := by
    intro deps
    induction deps with
    | nil => exact fun state _ _ hlow => hlow
    | cons dep deps ih =>
        intro state hdeps hstate hlow
        obtain ⟨⟨hfirst, hsecond⟩, hkept⟩ :=
          hvisit dep (hdeps dep List.mem_cons_self) state.2 hstate
        apply ih (visitStep depEdges impactTypes fuel label visiting state dep)
          (fun next hnext => hdeps next (List.mem_cons_of_mem _ hnext)) hkept
        refine ⟨le_min hlow.1 ?_, le_min hlow.2 hsecond⟩
        rw [saturatingAdd]
        exact le_min hfirst hfits.1
  exact hloop _ ((usizeMax, usizeMax), memo) (fun _ h => h) hmemo hfits

theorem calculateDistance_above {floor : String → Nat × Nat}
    (hfloor : IsFloor depEdges impactTypes floor) (fuel : Nat) {label : String}
    (hlabel : label ∈ impactTypes) {memo : Distances} {visiting : List String}
    (hfuel : (unvisited impactTypes visiting).length ≤ fuel)
    (hvisiting : ∀ v ∈ visiting, ReflTransGen (Expands depEdges impactTypes) v label)
    (hpending : Pending impactTypes visiting memo) (habove : Above floor memo) :
    Above floor (calculateDistance depEdges impactTypes fuel label memo visiting).2 ∧
      (label ∉ visiting →
        (floor label).1 ≤ (calculateDistance depEdges impactTypes fuel label memo visiting).1.1 ∧
        (floor label).2 ≤
          (calculateDistance depEdges impactTypes fuel label memo visiting).1.2) := by
  induction fuel using Nat.strong_induction_on generalizing label memo visiting with
  | _ fuel ih =>
      have hvisit := @calculateDistance_visit depEdges impactTypes fuel label memo visiting
      generalize calculateDistance depEdges impactTypes fuel label memo visiting = result
        at hvisit ⊢
      cases hvisit with
      | remembered hmemo => exact ⟨habove, fun _ => habove label _ hmemo⟩
      | direct hnew hdirect =>
          have hzero := hfloor.base label (.inl hdirect)
          have hlow : (floor label).1 ≤ 0 ∧ (floor label).2 ≤ 0 := by simp [hzero]
          exact ⟨habove.insert hlow, fun _ => hlow⟩
      | opened hnew hopen => exact ⟨habove, fun hnot => absurd hopen hnot⟩
      | unattributed hnew htype hopen hdeps =>
          have hzero := hfloor.base label (.inr ⟨indirect_of_not_direct hlabel htype, hdeps⟩)
          have hlow : (floor label).1 ≤ 0 ∧ (floor label).2 ≤ 0 := by simp [hzero]
          exact ⟨habove.insert hlow, fun _ => hlow⟩
      | exhausted hnew hopen =>
          have hless := unvisited_cons_length_lt hlabel hopen
          omega
      | @searched fuel hnew htype hopen hdeps =>
          have hless := unvisited_cons_length_lt hlabel hopen
          have hindirect := indirect_of_not_direct hlabel htype
          have hopened : ∀ v ∈ label :: visiting,
              ReflTransGen (Expands depEdges impactTypes) v label := by
            intro v hv
            rcases List.mem_cons.mp hv with rfl | hv
            · exact .refl
            · exact hvisiting v hv
          have hstart : Pending impactTypes (label :: visiting) memo ∧ Above floor memo :=
            ⟨hpending.cons hnew htype, habove⟩
          have hstep : ∀ dep ∈ impactedDeps depEdges impactTypes label, ∀ memo,
              (Pending impactTypes (label :: visiting) memo ∧ Above floor memo) →
              let visit := calculateDistance depEdges impactTypes fuel dep memo
                (label :: visiting)
              ((floor label).1 ≤ visit.1.1 + 1 ∧
                (floor label).2 ≤ visit.1.2 + crossing label dep) ∧
              (Pending impactTypes (label :: visiting) visit.2 ∧ Above floor visit.2) := by
            intro dep hdep memo ⟨hpending, habove⟩
            have hexpands : Expands depEdges impactTypes label dep := ⟨hindirect, hdep⟩
            have hinner := ih fuel (Nat.lt_succ_self fuel) (mem_of_mem_impactedDeps hdep)
              (by omega) (fun v hv => (hopened v hv).tail hexpands) hpending habove
            refine ⟨?_, calculateDistance_pending fuel dep hpending, hinner.1⟩
            by_cases hmem : dep ∈ label :: visiting
            · have hcycle := hfloor.cycle label dep hexpands (hopened dep hmem)
              rw [calculateDistance_opened fuel hpending hmem]
              simpa using hcycle
            · have hhop := hfloor.hop label dep hexpands
              have hdepLow := hinner.2 hmem
              omega
          have hlow := visitDeps_ge (hfloor.fits label) hstart hstep
          have hloop := visitDeps_keeps (fun dep hdep memo hmemo => (hstep dep hdep memo hmemo).2)
            hstart
          exact ⟨hloop.2.insert hlow, fun _ => hlow⟩

/-- When a label without a hop to itself is visited first, its own answer follows the floor
of its dependencies. -/
theorem firstVisit_ge {floor : String → Nat × Nat} (hfloor : IsFloor depEdges impactTypes floor)
    {label : String} (hindirect : impactTypes[label]? = some .indirect)
    (hself : label ∉ impactedDeps depEdges impactTypes label) {low : Nat × Nat}
    (hfits : low.1 ≤ usizeMax ∧ low.2 ≤ usizeMax)
    (hdeps : impactedDeps depEdges impactTypes label ≠ [])
    (hlow : ∀ dep ∈ impactedDeps depEdges impactTypes label,
      low.1 ≤ (floor dep).1 + 1 ∧ low.2 ≤ (floor dep).2 + crossing label dep) :
    ∃ distance, (firstVisit depEdges impactTypes label)[label]? = some distance ∧
      low.1 ≤ distance.1 ∧ low.2 ≤ distance.2 := by
  have hlabel : label ∈ impactTypes := mem_of_getElem? hindirect
  have hless := unvisited_cons_length_lt hlabel (List.not_mem_nil (a := label))
  have hall : (unvisited impactTypes []).length ≤ impactTypes.keys.length :=
    List.length_filter_le _ _
  have hvisit := @calculateDistance_visit depEdges impactTypes impactTypes.keys.length label ∅ []
  rw [firstVisit]
  generalize impactTypes.keys.length = fuel at hvisit hall ⊢
  generalize calculateDistance depEdges impactTypes fuel label ∅ [] = result at hvisit ⊢
  cases hvisit with
  | remembered hmemo => simp at hmemo
  | direct hnew hdirect =>
      rw [hindirect] at hdirect
      cases hdirect
  | opened hnew hopen => exact absurd hopen List.not_mem_nil
  | unattributed hnew htype hopen hnone => exact absurd hnone hdeps
  | exhausted hnew hopen => omega
  | @searched fuel hnew htype hopen _ =>
      refine ⟨_, Std.ExtTreeMap.getElem?_insert_self, ?_⟩
      have hstart : Pending impactTypes [label] ∅ ∧ Above floor ∅ := by
        constructor
        · intro other hother
          obtain rfl : other = label := by simpa using hother
          exact ⟨Std.ExtTreeMap.not_mem_empty, htype⟩
        · intro other distance hfound
          simp at hfound
      refine @visitDeps_ge _ _ (fun memo => Pending impactTypes [label] memo ∧ Above floor memo)
        fuel label ∅ [] low hfits hstart ?_
      intro dep hdep memo ⟨hpending, habove⟩
      have hnew' : dep ∉ [label] := by
        intro hmem
        obtain rfl : dep = label := by simpa using hmem
        exact hself hdep
      have hpath : ∀ v ∈ [label], ReflTransGen (Expands depEdges impactTypes) v dep := by
        intro v hv
        obtain rfl : v = label := by simpa using hv
        exact .single ⟨hindirect, hdep⟩
      have hinner := calculateDistance_above hfloor fuel (mem_of_mem_impactedDeps hdep)
        (by omega) hpath hpending habove
      refine ⟨?_, calculateDistance_pending fuel dep hpending, hinner.1⟩
      have hdepLow := hinner.2 hnew'
      have hdepFloor := hlow dep hdep
      omega

/-! ## Orders that agree -/

/-- All orders of the visits end with the same memo. -/
def OrderFree (depEdges : StringMap (List String)) (impactTypes : StringMap ImpactType) : Prop :=
  ∀ order order' : List String, order.Perm impactTypes.keys → order'.Perm impactTypes.keys →
    distances depEdges impactTypes order = distances depEdges impactTypes order'

theorem OrderFree.firstVisit_eq (hfree : OrderFree depEdges impactTypes) {first second : String}
    (hfirst : first ∈ impactTypes) (hsecond : second ∈ impactTypes) {label : String}
    {distance distance' : Nat × Nat}
    (h : (firstVisit depEdges impactTypes first)[label]? = some distance)
    (h' : (firstVisit depEdges impactTypes second)[label]? = some distance') :
    distance = distance' := by
  obtain ⟨order, horder, hkeeps⟩ := @exists_order_first depEdges impactTypes first hfirst
  obtain ⟨order', horder', hkeeps'⟩ := @exists_order_first depEdges impactTypes second hsecond
  have heq := (hkeeps label distance h).symm.trans
    ((congrArg (·[label]?) (hfree order order' horder horder')).trans
      (hkeeps' label distance' h'))
  exact Option.some.inj heq

/-- A hop around a cycle is compared in the run that starts at its end and in the run that
starts at its beginning. -/
theorem OrderFree.hop_le (hfree : OrderFree depEdges impactTypes) {label dep : String}
    (hdep : Expands depEdges impactTypes label dep) (hne : dep ≠ label)
    (hback : ReflTransGen (Expands depEdges impactTypes) dep label)
    {distance : Nat × Nat}
    (h : (firstVisit depEdges impactTypes label)[label]? = some distance) :
    distance.1 ≤ 1 ∧ distance.2 ≤ crossing label dep := by
  have hindirect : impactTypes[dep]? = some .indirect := by
    rcases hback.cases_head with heq | ⟨next, hnext, -⟩
    · exact absurd heq hne
    · exact hnext.1
  obtain ⟨distance', hdistance', hle⟩ := firstVisit_le hindirect hback hne hdep
  rw [hfree.firstVisit_eq (mem_of_getElem? hdep.1) (mem_of_getElem? hindirect) h hdistance']
  exact hle

open Classical in
/-- Labels that are no base labels are at least one hop away from one. -/
noncomputable def hopFloor (depEdges : StringMap (List String))
    (impactTypes : StringMap ImpactType) (label : String) : Nat × Nat :=
  if Base depEdges impactTypes label then (0, 0) else (1, 0)

theorem isFloor_hops : IsFloor depEdges impactTypes (hopFloor depEdges impactTypes) where
  base label h := if_pos h
  hop label dep _ := by
    rw [hopFloor]
    split <;> simp
  cycle label dep _ _ := by
    rw [hopFloor]
    split <;> simp
  fits label := by
    rw [hopFloor]
    split <;> simp [usizeMax]

theorem OrderFree.exists_zero (hfree : OrderFree depEdges impactTypes) {label dep : String}
    (hdep : Expands depEdges impactTypes label dep) (hne : dep ≠ label)
    (hback : ReflTransGen (Expands depEdges impactTypes) dep label) :
    ∃ other ∈ impactedDeps depEdges impactTypes label,
      other = label ∨ Base depEdges impactTypes other := by
  by_contra hnone
  push Not at hnone
  have hlow : ∀ other ∈ impactedDeps depEdges impactTypes label,
      2 ≤ (hopFloor depEdges impactTypes other).1 + 1 ∧
        0 ≤ (hopFloor depEdges impactTypes other).2 + crossing label other := by
    intro other hother
    rw [hopFloor, if_neg (hnone other hother).2]
    simp
  obtain ⟨distance, hdistance, hle⟩ := @firstVisit_ge _ _ _ isFloor_hops _ hdep.1
    (fun hself => (hnone label hself).1 rfl) (2, 0) (by decide) (List.ne_nil_of_mem hdep.2) hlow
  have := (hfree.hop_le hdep hne hback hdistance).1
  omega

open Classical in
/-- The labels below a label in its package are at least one package away from a base. -/
noncomputable def packageFloor (depEdges : StringMap (List String))
    (impactTypes : StringMap ImpactType) (first label : String) : Nat × Nat :=
  if TransGen (Within depEdges impactTypes) first label then (0, 1) else (0, 0)

theorem packageFloor_fst (first label : String) :
    (packageFloor depEdges impactTypes first label).1 = 0 := by
  rw [packageFloor]
  split <;> rfl

theorem packageFloor_below {first label : String}
    (h : TransGen (Within depEdges impactTypes) first label) :
    packageFloor depEdges impactTypes first label = (0, 1) :=
  if_pos h

theorem packageFloor_other {first label : String}
    (h : ¬ TransGen (Within depEdges impactTypes) first label) :
    packageFloor depEdges impactTypes first label = (0, 0) :=
  if_neg h

/-- Below an unanchored label that is so, if no label there has a hop around a cycle in the
package. -/
theorem isFloor_package {first : String} (hfirst : ¬ Anchored depEdges impactTypes first)
    (hcycle : ∀ label dep, TransGen (Within depEdges impactTypes) first label →
      Within depEdges impactTypes label dep → dep ≠ label →
      ¬ ReflTransGen (Expands depEdges impactTypes) dep label) :
    IsFloor depEdges impactTypes (packageFloor depEdges impactTypes first) where
  base label h := by
    apply packageFloor_other
    intro hpath
    exact hfirst ⟨label, hpath.to_reflTransGen, .inl h⟩
  hop label dep hdep := by
    refine ⟨by simp [packageFloor_fst], ?_⟩
    by_cases hpath : TransGen (Within depEdges impactTypes) first label
    · rw [packageFloor_below hpath]
      by_cases hpackage : distancePackage dep = distancePackage label
      · rw [packageFloor_below (hpath.tail ⟨hdep, hpackage⟩)]
        exact Nat.le_add_right 1 _
      · rw [crossing, if_pos hpackage]
        exact Nat.le_add_left 1 _
    · rw [packageFloor_other hpath]
      exact Nat.zero_le _
  cycle label dep hdep hback := by
    refine ⟨by simp [packageFloor_fst], ?_⟩
    by_cases hpath : TransGen (Within depEdges impactTypes) first label
    · rw [packageFloor_below hpath, crossing, if_pos]
      intro hpackage
      by_cases heq : dep = label
      · subst heq
        exact hfirst ⟨dep, hpath.to_reflTransGen, .inr (.single ⟨hdep, hpackage⟩)⟩
      · exact hcycle label dep hpath ⟨hdep, hpackage⟩ heq hback
    · rw [packageFloor_other hpath]
      exact Nat.zero_le _
  fits label := by
    rw [packageFloor]
    split <;> simp [usizeMax]

open Classical in
/-- The labels below a label in its package. -/
noncomputable def below (depEdges : StringMap (List String)) (impactTypes : StringMap ImpactType)
    (label : String) : Finset String :=
  impactTypes.keys.toFinset.filter fun other => TransGen (Within depEdges impactTypes) label other

/-- Below an unanchored label there are fewer and fewer labels. -/
theorem below_card_lt {label other : String} (hlabel : ¬ Anchored depEdges impactTypes label)
    (hpath : TransGen (Within depEdges impactTypes) label other) :
    (below depEdges impactTypes other).card < (below depEdges impactTypes label).card := by
  classical
  have hmem : other ∈ impactTypes := by
    obtain ⟨last, -, hlast⟩ := TransGen.tail'_iff.mp hpath
    exact mem_of_mem_impactedDeps hlast.1.2
  apply Finset.card_lt_card
  refine Finset.ssubset_iff_of_subset ?_ |>.mpr ⟨other, ?_, ?_⟩
  · intro next hnext
    rw [below, Finset.mem_filter] at hnext ⊢
    exact ⟨hnext.1, hpath.trans hnext.2⟩
  · rw [below, Finset.mem_filter, List.mem_toFinset, Std.ExtTreeMap.mem_keys]
    exact ⟨hmem, hpath⟩
  · rw [below, Finset.mem_filter]
    rintro ⟨-, hloop⟩
    exact hlabel ⟨other, hpath.to_reflTransGen, .inr hloop⟩

theorem OrderFree.anchored (hfree : OrderFree depEdges impactTypes) {label dep : String}
    (hdep : Within depEdges impactTypes label dep) (hne : dep ≠ label)
    (hback : ReflTransGen (Expands depEdges impactTypes) dep label) :
    Anchored depEdges impactTypes label := by
  induction hcard : (below depEdges impactTypes label).card using Nat.strong_induction_on
    generalizing label dep with
  | _ card ih =>
      by_contra hlabel
      have hcycle : ∀ other next, TransGen (Within depEdges impactTypes) label other →
          Within depEdges impactTypes other next → next ≠ other →
          ¬ ReflTransGen (Expands depEdges impactTypes) next other := by
        intro other next hpath hnext hne hback
        have hanchored := ih _ (hcard ▸ below_card_lt hlabel hpath) hnext hne hback rfl
        obtain ⟨last, hrest, hlast⟩ := hanchored
        exact hlabel ⟨last, hpath.to_reflTransGen.trans hrest, hlast⟩
      have hself : label ∉ impactedDeps depEdges impactTypes label := by
        intro hmem
        exact hlabel ⟨label, .refl, .inr (.single ⟨⟨hdep.1.1, hmem⟩, rfl⟩)⟩
      have hlow : ∀ other ∈ impactedDeps depEdges impactTypes label,
          0 ≤ (packageFloor depEdges impactTypes label other).1 + 1 ∧
            1 ≤ (packageFloor depEdges impactTypes label other).2 + crossing label other := by
        intro other hother
        refine ⟨Nat.zero_le _, ?_⟩
        by_cases hpackage : distancePackage other = distancePackage label
        · rw [packageFloor_below (.single ⟨⟨hdep.1.1, hother⟩, hpackage⟩)]
          exact Nat.le_add_right 1 _
        · rw [crossing, if_pos hpackage]
          exact Nat.le_add_left 1 _
      obtain ⟨distance, hdistance, hle⟩ := @firstVisit_ge _ _ _ (isFloor_package hlabel hcycle) _
        hdep.1.1 hself (0, 1) (by decide) (List.ne_nil_of_mem hdep.1.2) hlow
      have hhop := (hfree.hop_le hdep.1 hne hback hdistance).2
      rw [hdep.crossing_eq] at hhop
      omega

/-- The order of the visits does not matter exactly when the cycles are settled. -/
theorem orderFree_iff : OrderFree depEdges impactTypes ↔ CyclesSettled depEdges impactTypes := by
  constructor
  · intro hfree label dep hdep hne hback
    exact ⟨hfree.exists_zero hdep hne hback, fun hpackage =>
      hfree.anchored ⟨hdep, hpackage⟩ hne hback⟩
  · intro hsettled order order' horder horder'
    exact distances_eq_of_settled hsettled horder horder'

end Visits

variable {D : Type} [DecidableEq D]

/-- For two hash files and any edges, the distances are those of every visiting order exactly
when the cycles of the indirectly impacted labels are settled. -/
theorem distances_order_free_iff (start final : StringMap (TargetHash D))
    (depEdges : StringMap (List String)) :
    (∀ order order' : List String, order.Perm (impactedTypes start final).keys →
      order'.Perm (impactedTypes start final).keys → ∀ label : String,
      (distances depEdges (impactedTypes start final) order)[label]? =
        (distances depEdges (impactedTypes start final) order')[label]?) ↔
    CyclesSettled depEdges (impactedTypes start final) := by
  rw [← orderFree_iff]
  constructor
  · intro h order order' horder horder'
    exact Std.ExtTreeMap.ext_getElem? fun label => h order order' horder horder' label
  · intro h order order' horder horder' label
    rw [h order order' horder horder']

/-- A changed library, a tool that uses it, and a generator that uses the tool and is used by
it, before and after. -/
def cyclicHashes (revision : Nat) : StringMap (TargetHash Nat) :=
  ((∅ : StringMap (TargetHash Nat)).insert "//a:lib" (movedHash revision revision)).insert
    "//a:tool" (movedHash revision 0) |>.insert "//a:gen" (movedHash revision 0)

def cyclicEdges : StringMap (List String) :=
  ((∅ : StringMap (List String)).insert "//a:tool" ["//a:gen", "//a:lib"]).insert
    "//a:gen" ["//a:tool"]

/-- The generator is two hops from the library, or one, whichever label is visited first. -/
theorem distances_depend_on_order :
    ¬ ∀ order order' : List String,
      order.Perm (impactedTypes (cyclicHashes 0) (cyclicHashes 1)).keys →
      order'.Perm (impactedTypes (cyclicHashes 0) (cyclicHashes 1)).keys → ∀ label : String,
      (distances cyclicEdges (impactedTypes (cyclicHashes 0) (cyclicHashes 1)) order)[label]? =
        (distances cyclicEdges (impactedTypes (cyclicHashes 0) (cyclicHashes 1))
          order')[label]? := by
  intro h
  have heq := h ["//a:gen", "//a:tool", "//a:lib"] ["//a:tool", "//a:gen", "//a:lib"]
    (by decide +kernel) (by decide +kernel) "//a:gen"
  exact absurd heq (by decide +kernel)

end BazelDiff
