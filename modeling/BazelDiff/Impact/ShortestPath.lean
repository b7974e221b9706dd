/-
# Distances are least costs

The memo of the distance search is shared by all labels and read while searches are
under way, and a label whose search is open answers zero. So whether the memo ends with
the least number of hops is a question about cycles: on a graph without them no search
ever meets an open label.

Some cyclic graphs are harmless too. A label on a cycle is one hop away from an open
label, whichever label that is, so its answer can only be stable when it is one hop
away from something that answers zero in every search. The package distance needs the
same of the hops that stay in a package. Under exactly that condition, which an acyclic
graph meets for free, the search finds least costs: those of the walks that end where
an answer is zero for good, or on a cycle.
-/

import BazelDiff.Impact.Distance
import BazelDiff.Lib.Outcome
import BazelDiff.Lib.ShortestWalk
import Mathlib.Logic.Relation
import Mathlib.Order.Lattice.Nat

namespace BazelDiff

open Relation

section Graph

variable (depEdges : StringMap (List String)) (impactTypes : StringMap ImpactType)

/-- One dependency step between impacted labels. -/
def Uses (label dep : String) : Prop :=
  label ∈ impactTypes ∧ dep ∈ impactedDeps depEdges impactTypes label

/-- A label distances are measured to: a direct one, or an indirect one without an
impacted dependency. -/
def Base (label : String) : Prop :=
  impactTypes[label]? = some .direct ∨
    impactTypes[label]? = some .indirect ∧ impactedDeps depEdges impactTypes label = []

/-- A step the search takes: it stops at direct labels. -/
def Expands (label dep : String) : Prop :=
  impactTypes[label]? = some .indirect ∧ dep ∈ impactedDeps depEdges impactTypes label

/-- A step of the search inside one package. -/
def Within (label dep : String) : Prop :=
  Expands depEdges impactTypes label dep ∧ distancePackage dep = distancePackage label

/-- Whether a hop leaves the package. -/
def crossing (label dep : String) : Nat :=
  if distancePackage dep ≠ distancePackage label then 1 else 0

/-- Without leaving its package, a label leads to a base label or around a cycle. -/
def Anchored (label : String) : Prop :=
  ∃ last, ReflTransGen (Within depEdges impactTypes) label last ∧
    (Base depEdges impactTypes last ∨ TransGen (Within depEdges impactTypes) last last)

/-- Every hop around a cycle of several labels starts at a label that depends on itself
or on a base label, and at an anchored label if it stays in the package. -/
def CyclesSettled : Prop :=
  ∀ label dep, Expands depEdges impactTypes label dep → dep ≠ label →
    ReflTransGen (Expands depEdges impactTypes) dep label →
    (∃ other ∈ impactedDeps depEdges impactTypes label,
      other = label ∨ Base depEdges impactTypes other) ∧
    (distancePackage dep = distancePackage label → Anchored depEdges impactTypes label)

/-- Where a walk may end, and the target distance it has there. -/
def TargetStop (label : String) (n : Nat) : Prop :=
  Base depEdges impactTypes label ∧ n = 0 ∨
    TransGen (Expands depEdges impactTypes) label label ∧ n = 1

/-- Where a walk may end, and the package distance it has there. -/
def PackageStop (label : String) (n : Nat) : Prop :=
  Base depEdges impactTypes label ∧ n = 0 ∨
    TransGen (Expands depEdges impactTypes) label label ∧
      (Anchored depEdges impactTypes label ∧ n = 0 ∨
        ¬ Anchored depEdges impactTypes label ∧ n = 1)

/-- The number of hops of the walks from a label. -/
def TargetCost : String → Nat → Prop :=
  WalkCost (Uses depEdges impactTypes) (fun _ _ => 1) (TargetStop depEdges impactTypes)

/-- The number of package-crossing hops of the walks from a label. -/
def PackageCost : String → Nat → Prop :=
  WalkCost (Uses depEdges impactTypes) crossing (PackageStop depEdges impactTypes)

noncomputable def leastTarget (label : String) : Nat :=
  sInf {n | TargetCost depEdges impactTypes label n}

noncomputable def leastPackage (label : String) : Nat :=
  sInf {n | PackageCost depEdges impactTypes label n}

/-- Both costs exist and the distance is the least of each, as far as a `usize` goes. -/
structure Placed (label : String) (distance : Nat × Nat) : Prop where
  target : ∃ n, TargetCost depEdges impactTypes label n
  package : ∃ n, PackageCost depEdges impactTypes label n
  eq : distance = (min (leastTarget depEdges impactTypes label) usizeMax,
    min (leastPackage depEdges impactTypes label) usizeMax)

end Graph

/-! ## The graph -/

section GraphFacts

variable {depEdges : StringMap (List String)} {impactTypes : StringMap ImpactType}

theorem mem_of_mem_impactedDeps {label dep : String}
    (h : dep ∈ impactedDeps depEdges impactTypes label) : dep ∈ impactTypes := by
  simpa using (List.mem_filter.mp h).2

theorem indirect_of_not_direct {label : String} (hlabel : label ∈ impactTypes)
    (h : impactTypes[label]? ≠ some .direct) : impactTypes[label]? = some .indirect := by
  obtain ⟨impact, himpact⟩ := Option.isSome_iff_exists.mp
    (Std.ExtTreeMap.mem_iff_isSome_getElem?.mp hlabel)
  cases impact with
  | direct => exact absurd himpact h
  | indirect => exact himpact

theorem Expands.uses {label dep : String} (h : Expands depEdges impactTypes label dep) :
    Uses depEdges impactTypes label dep :=
  ⟨mem_of_getElem? h.1, h.2⟩

theorem Within.crossing_eq {label dep : String} (h : Within depEdges impactTypes label dep) :
    crossing label dep = 0 := by
  simp [crossing, h.2]

theorem crossing_eq_zero_iff {label dep : String} :
    crossing label dep = 0 ↔ distancePackage dep = distancePackage label := by
  simp [crossing]

theorem crossing_le_one (label dep : String) : crossing label dep ≤ 1 := by
  rw [crossing]
  split <;> omega

theorem not_base {label : String} (hindirect : impactTypes[label]? = some .indirect)
    (hdeps : impactedDeps depEdges impactTypes label ≠ []) : ¬ Base depEdges impactTypes label := by
  rintro (hdirect | ⟨-, hnone⟩)
  · rw [hindirect] at hdirect
    cases hdirect
  · exact hdeps hnone

theorem Base.anchored {label : String} (h : Base depEdges impactTypes label) :
    Anchored depEdges impactTypes label :=
  ⟨label, .refl, .inl h⟩

theorem Anchored.of_within {label dep : String} (h : Within depEdges impactTypes label dep)
    (hdep : Anchored depEdges impactTypes dep) : Anchored depEdges impactTypes label := by
  obtain ⟨last, hpath, hlast⟩ := hdep
  exact ⟨last, .head h hpath, hlast⟩

/-- An anchored label that is no base label has an anchored dependency in its package. -/
theorem Anchored.exists_within {label : String} (h : Anchored depEdges impactTypes label)
    (hbase : ¬ Base depEdges impactTypes label) :
    ∃ dep, Within depEdges impactTypes label dep ∧ Anchored depEdges impactTypes dep := by
  obtain ⟨last, hpath, hlast⟩ := h
  cases hpath.cases_head with
  | inr hstep =>
      obtain ⟨dep, hdep, hrest⟩ := hstep
      exact ⟨dep, hdep, last, hrest, hlast⟩
  | inl heq =>
      subst heq
      have hcycle := hlast.resolve_left hbase
      obtain ⟨dep, hdep, hrest⟩ := TransGen.head'_iff.mp hcycle
      exact ⟨dep, hdep, label, hrest, .inr hcycle⟩

/-- Anchored labels are those with a walk that crosses no package. -/
theorem packageCost_zero_iff {label : String} :
    PackageCost depEdges impactTypes label 0 ↔ Anchored depEdges impactTypes label := by
  constructor
  · intro h
    generalize hn : 0 = n at h
    induction h with
    | @stop label n h =>
        rcases h with ⟨hbase, -⟩ | ⟨-, ⟨hanchored, -⟩ | ⟨-, hone⟩⟩
        · exact hbase.anchored
        · exact hanchored
        · omega
    | @step label dep n h rest ih =>
        have hcross : crossing label dep = 0 := by omega
        have hdep := ih (by omega)
        cases htype : impactTypes[label]? with
        | none => exact absurd (Std.ExtTreeMap.mem_iff_isSome_getElem?.mp h.1) (by simp [htype])
        | some impact =>
            cases impact with
            | direct => exact Base.anchored (.inl htype)
            | indirect =>
                exact hdep.of_within ⟨⟨htype, h.2⟩, crossing_eq_zero_iff.mp hcross⟩
  · rintro ⟨last, hpath, hlast⟩
    induction hpath using ReflTransGen.head_induction_on with
    | refl =>
        rcases hlast with hbase | hcycle
        · exact .stop (.inl ⟨hbase, rfl⟩)
        · have hwide := TransGen.mono (fun _ _ (h : Within depEdges impactTypes _ _) => h.1) _ _ hcycle
          exact .stop (.inr ⟨hwide, .inl ⟨⟨last, .refl, .inr hcycle⟩, rfl⟩⟩)
    | head hstep _ ih =>
        have hcost := WalkCost.step hstep.1.uses ih
        rwa [hstep.crossing_eq] at hcost

theorem isLeast_leastTarget {label : String} (h : ∃ n, TargetCost depEdges impactTypes label n) :
    IsLeast {n | TargetCost depEdges impactTypes label n}
      (leastTarget depEdges impactTypes label) :=
  ⟨Nat.sInf_mem h, fun _ hn => Nat.sInf_le hn⟩

theorem isLeast_leastPackage {label : String}
    (h : ∃ n, PackageCost depEdges impactTypes label n) :
    IsLeast {n | PackageCost depEdges impactTypes label n}
      (leastPackage depEdges impactTypes label) :=
  ⟨Nat.sInf_mem h, fun _ hn => Nat.sInf_le hn⟩

theorem Base.leastTarget_eq {label : String} (h : Base depEdges impactTypes label) :
    leastTarget depEdges impactTypes label = 0 :=
  Nat.le_zero.mp (Nat.sInf_le (WalkCost.stop (.inl ⟨h, rfl⟩)))

theorem Anchored.leastPackage_eq {label : String} (h : Anchored depEdges impactTypes label) :
    leastPackage depEdges impactTypes label = 0 :=
  Nat.le_zero.mp (Nat.sInf_le (packageCost_zero_iff.mpr h))

theorem Base.placed {label : String} (h : Base depEdges impactTypes label) :
    Placed depEdges impactTypes label (0, 0) where
  target := ⟨0, .stop (.inl ⟨h, rfl⟩)⟩
  package := ⟨0, .stop (.inl ⟨h, rfl⟩)⟩
  eq := by simp [h.leastTarget_eq, h.anchored.leastPackage_eq]

/-! ## One label from its dependencies

While the search of `label` looks at its dependencies, the labels of `opened` answer
zero: `label` itself and the labels whose searches led to it. -/

variable {opened : List String} {label : String}

theorem onCycle_of_opened (hopened : ∀ v ∈ opened, ReflTransGen (Expands depEdges impactTypes) v label)
    {dep : String} (hdep : Expands depEdges impactTypes label dep) (hmem : dep ∈ opened) :
    TransGen (Expands depEdges impactTypes) label label :=
  TransGen.head' hdep (hopened dep hmem)

theorem uses_iff (hindirect : impactTypes[label]? = some .indirect) {dep : String} :
    Uses depEdges impactTypes label dep ↔ dep ∈ impactedDeps depEdges impactTypes label :=
  ⟨fun h => h.2, fun h => ⟨mem_of_getElem? hindirect, h⟩⟩

/-- On a cycle, some dependency answers zero on both counts in every search. -/
theorem CyclesSettled.exists_zero (hsettled : CyclesSettled depEdges impactTypes)
    (hself : label ∈ opened) (hcycle : TransGen (Expands depEdges impactTypes) label label) :
    ∃ dep ∈ impactedDeps depEdges impactTypes label,
      dep ∈ opened ∨ Base depEdges impactTypes dep := by
  obtain ⟨dep, hdep, hback⟩ := TransGen.head'_iff.mp hcycle
  by_cases heq : dep = label
  · subst heq
    exact ⟨dep, hdep.2, .inl hself⟩
  · obtain ⟨other, hother, hzero⟩ := (hsettled label dep hdep heq hback).1
    refine ⟨other, hother, ?_⟩
    rcases hzero with rfl | hbase
    · exact .inl hself
    · exact .inr hbase

theorem isLeast_targetCost_of_deps (hsettled : CyclesSettled depEdges impactTypes)
    (hindirect : impactTypes[label]? = some .indirect)
    (hdeps : impactedDeps depEdges impactTypes label ≠ []) (hself : label ∈ opened)
    (hopened : ∀ v ∈ opened, ReflTransGen (Expands depEdges impactTypes) v label)
    (hplaced : ∀ dep ∈ impactedDeps depEdges impactTypes label, dep ∉ opened →
      ∃ n, TargetCost depEdges impactTypes dep n) {m : Nat}
    (hm : IsLeast {n | ∃ dep ∈ impactedDeps depEdges impactTypes label,
      1 + (if dep ∈ opened then 0 else leastTarget depEdges impactTypes dep) = n} m) :
    IsLeast {n | TargetCost depEdges impactTypes label n} m := by
  have hbase := not_base hindirect hdeps
  by_cases hcycle : TransGen (Expands depEdges impactTypes) label label
  · have hone : m = 1 := by
      obtain ⟨⟨dep, hdep, heq⟩, hlower⟩ := hm
      obtain ⟨zero, hzero, hanswer⟩ := hsettled.exists_zero hself hcycle
      have hle := hlower ⟨zero, hzero, rfl⟩
      rcases hanswer with hmem | hbase
      · rw [if_pos hmem] at hle
        omega
      · rw [hbase.leastTarget_eq, ite_self] at hle
        omega
    subst hone
    refine ⟨WalkCost.stop (.inr ⟨hcycle, rfl⟩), ?_⟩
    intro n hn
    cases hn with
    | stop h =>
        rcases h with ⟨h, -⟩ | ⟨-, rfl⟩
        · exact absurd h hbase
        · exact Nat.le_refl 1
    | step h rest => exact Nat.le_add_right 1 _
  · have hnew : ∀ dep ∈ impactedDeps depEdges impactTypes label, dep ∉ opened :=
      fun dep hdep hmem => hcycle (onCycle_of_opened hopened ⟨hindirect, hdep⟩ hmem)
    refine @isLeast_walkCost_step _ _ _ _ _ ?_ (leastTarget depEdges impactTypes) ?_ _ ?_
    · rintro n (⟨h, -⟩ | ⟨h, -⟩)
      · exact hbase h
      · exact hcycle h
    · intro dep hdep
      exact isLeast_leastTarget (hplaced dep hdep.2 (hnew dep hdep.2))
    · convert hm using 3 with n
      constructor
      · rintro ⟨dep, hdep, rfl⟩
        exact ⟨dep, hdep.2, by rw [if_neg (hnew dep hdep.2)]⟩
      · rintro ⟨dep, hdep, rfl⟩
        exact ⟨dep, (uses_iff hindirect).mpr hdep, by rw [if_neg (hnew dep hdep)]⟩

/-- On a cycle the package answer is zero exactly for anchored labels. -/
theorem isLeast_packageCost_cycle
    (hcycle : TransGen (Expands depEdges impactTypes) label label) {m : Nat}
    (hzero : Anchored depEdges impactTypes label → m = 0)
    (hone : ¬ Anchored depEdges impactTypes label → m = 1) :
    IsLeast {n | PackageCost depEdges impactTypes label n} m := by
  by_cases hanchored : Anchored depEdges impactTypes label
  · rw [hzero hanchored]
    exact isLeast_walkCost_stop (.inr ⟨hcycle, .inl ⟨hanchored, rfl⟩⟩)
  · rw [hone hanchored]
    refine ⟨WalkCost.stop (.inr ⟨hcycle, .inr ⟨hanchored, rfl⟩⟩), ?_⟩
    intro n hn
    rcases Nat.eq_zero_or_pos n with rfl | hpos
    · exact absurd (packageCost_zero_iff.mp hn) hanchored
    · exact hpos

/-- A dependency that answers zero without a crossing anchors the label. -/
theorem CyclesSettled.anchored_of_zero (hsettled : CyclesSettled depEdges impactTypes)
    (hopened : ∀ v ∈ opened, ReflTransGen (Expands depEdges impactTypes) v label)
    {dep : String} (hdep : Expands depEdges impactTypes label dep)
    (hplaced : dep ∉ opened → ∃ n, PackageCost depEdges impactTypes dep n)
    (hzero : crossing label dep +
      (if dep ∈ opened then 0 else leastPackage depEdges impactTypes dep) = 0) :
    Anchored depEdges impactTypes label := by
  have hpackage : distancePackage dep = distancePackage label :=
    crossing_eq_zero_iff.mp (by omega)
  by_cases hmem : dep ∈ opened
  · by_cases heq : dep = label
    · subst heq
      exact ⟨dep, .refl, .inr (.single ⟨hdep, rfl⟩)⟩
    · exact (hsettled label dep hdep heq (hopened dep hmem)).2 hpackage
  · rw [if_neg hmem] at hzero
    have hleast := (isLeast_leastPackage (hplaced hmem)).1
    rw [show leastPackage depEdges impactTypes dep = 0 by omega] at hleast
    exact (packageCost_zero_iff.mp hleast).of_within ⟨hdep, hpackage⟩

theorem isLeast_packageCost_of_deps (hsettled : CyclesSettled depEdges impactTypes)
    (hindirect : impactTypes[label]? = some .indirect)
    (hdeps : impactedDeps depEdges impactTypes label ≠ []) (hself : label ∈ opened)
    (hopened : ∀ v ∈ opened, ReflTransGen (Expands depEdges impactTypes) v label)
    (hplaced : ∀ dep ∈ impactedDeps depEdges impactTypes label, dep ∉ opened →
      ∃ n, PackageCost depEdges impactTypes dep n) {m : Nat}
    (hm : IsLeast {n | ∃ dep ∈ impactedDeps depEdges impactTypes label,
      crossing label dep +
        (if dep ∈ opened then 0 else leastPackage depEdges impactTypes dep) = n} m) :
    IsLeast {n | PackageCost depEdges impactTypes label n} m := by
  have hbase := not_base hindirect hdeps
  by_cases hcycle : TransGen (Expands depEdges impactTypes) label label
  · obtain ⟨⟨best, hbest, heq⟩, hlower⟩ := hm
    apply isLeast_packageCost_cycle hcycle
    · intro hanchored
      obtain ⟨dep, hdep, hdepAnchored⟩ := hanchored.exists_within hbase
      have hle := hlower ⟨dep, hdep.1.2, rfl⟩
      rw [hdep.crossing_eq, hdepAnchored.leastPackage_eq, ite_self] at hle
      omega
    · intro hanchored
      obtain ⟨zero, hzero, hanswer⟩ := hsettled.exists_zero hself hcycle
      have hle := hlower ⟨zero, hzero, rfl⟩
      have hcross := crossing_le_one label zero
      have hupper : m ≤ 1 := by
        rcases hanswer with hmem | hbase
        · rw [if_pos hmem] at hle
          omega
        · rw [hbase.anchored.leastPackage_eq, ite_self] at hle
          omega
      have hpos : m ≠ 0 := by
        rintro rfl
        exact hanchored (hsettled.anchored_of_zero hopened ⟨hindirect, hbest⟩
          (hplaced best hbest) heq)
      omega
  · have hnew : ∀ dep ∈ impactedDeps depEdges impactTypes label, dep ∉ opened :=
      fun dep hdep hmem => hcycle (onCycle_of_opened hopened ⟨hindirect, hdep⟩ hmem)
    refine @isLeast_walkCost_step _ _ _ _ _ ?_ (leastPackage depEdges impactTypes) ?_ _ ?_
    · rintro n (⟨h, -⟩ | ⟨h, -⟩)
      · exact hbase h
      · exact hcycle h
    · intro dep hdep
      exact isLeast_leastPackage (hplaced dep hdep.2 (hnew dep hdep.2))
    · convert hm using 3 with n
      constructor
      · rintro ⟨dep, hdep, rfl⟩
        exact ⟨dep, hdep.2, by rw [if_neg (hnew dep hdep.2)]⟩
      · rintro ⟨dep, hdep, rfl⟩
        exact ⟨dep, (uses_iff hindirect).mpr hdep, by rw [if_neg (hnew dep hdep)]⟩

end GraphFacts

/-! ## The search -/

/-- A running minimum that starts at the top is the least value, cut at the top. -/
theorem foldl_min_eq {α : Type} {items : List α} {g h : α → Nat} {m top : Nat}
    (hm : IsLeast {n | ∃ item ∈ items, h item = n} m)
    (hg : ∀ item ∈ items, min (g item) top = min (h item) top) :
    items.foldl (fun best item => min best (g item)) top = min m top := by
  have hfold : ∀ (items : List α) (init : Nat),
      let result := items.foldl (fun best item => min best (g item)) init
      (result ≤ init ∧ ∀ item ∈ items, result ≤ g item) ∧
        (result = init ∨ ∃ item ∈ items, result = g item) := by
    intro items
    induction items with
    | nil => simp
    | cons item items ih =>
        intro init
        obtain ⟨⟨hinit, hall⟩, hattained⟩ := ih (min init (g item))
        refine ⟨⟨hinit.trans (min_le_left _ _), ?_⟩, ?_⟩
        · intro other hother
          rcases List.mem_cons.mp hother with rfl | hother
          · exact hinit.trans (min_le_right _ _)
          · exact hall other hother
        · rcases hattained with heq | ⟨other, hother, heq⟩
          · rcases min_choice init (g item) with hmin | hmin
            · exact .inl (heq.trans hmin)
            · exact .inr ⟨item, List.mem_cons_self, heq.trans hmin⟩
          · exact .inr ⟨other, List.mem_cons_of_mem _ hother, heq⟩
  obtain ⟨⟨htop, hall⟩, hattained⟩ := hfold items top
  obtain ⟨⟨least, hleast, rfl⟩, hlower⟩ := hm
  apply Nat.le_antisymm
  · rw [← hg least hleast]
    exact le_min (hall least hleast) htop
  · rcases hattained with heq | ⟨item, hitem, heq⟩
    · rw [heq]
      exact min_le_right _ _
    · have hbound := min_le_min_right top (hlower ⟨item, hitem, rfl⟩)
      rw [← hg item hitem, ← heq] at hbound
      exact hbound.trans (min_le_left _ _)

section Search

variable {depEdges : StringMap (List String)} {impactTypes : StringMap ImpactType}

/-- Every answer in the memo is the least cost. -/
def Exact (depEdges : StringMap (List String)) (impactTypes : StringMap ImpactType)
    (memo : Distances) : Prop :=
  ∀ label distance, memo[label]? = some distance → Placed depEdges impactTypes label distance

theorem Exact.insert {memo : Distances} (hmemo : Exact depEdges impactTypes memo)
    {label : String} {distance : Nat × Nat} (h : Placed depEdges impactTypes label distance) :
    Exact depEdges impactTypes (memo.insert label distance) := by
  intro other found hfound
  rw [Std.ExtTreeMap.getElem?_insert] at hfound
  split at hfound
  · next heq =>
      rw [compare_eq_iff_eq] at heq
      cases hfound
      exact heq ▸ h
  · exact hmemo other found hfound

/-- One round of the loop of a visit: the best distance so far and the memo. -/
def visitStep (depEdges : StringMap (List String)) (impactTypes : StringMap ImpactType)
    (fuel : Nat) (label : String) (visiting : List String) (state : (Nat × Nat) × Distances)
    (dep : String) : (Nat × Nat) × Distances :=
  let visit := calculateDistance depEdges impactTypes fuel dep state.2 (label :: visiting)
  ((min state.1.1 (saturatingAdd visit.1.1 1), min state.1.2 (visit.1.2 + crossing label dep)),
    visit.2)

/-- The loop of one visit over the dependencies of its label. -/
def visitDeps (depEdges : StringMap (List String)) (impactTypes : StringMap ImpactType)
    (fuel : Nat) (label : String) (memo : Distances) (visiting : List String) :
    (Nat × Nat) × Distances :=
  (impactedDeps depEdges impactTypes label).foldl
    (visitStep depEdges impactTypes fuel label visiting) ((usizeMax, usizeMax), memo)

/-- The loop over the dependencies of a label, when each visit answers what it should and
keeps a property of the memo. -/
theorem foldl_visitStep {fuel : Nat} {label : String} {visiting deps : List String}
    {answer : String → Nat × Nat} {Inv : Distances → Prop}
    (hvisit : ∀ dep ∈ deps, ∀ memo, Inv memo →
      (calculateDistance depEdges impactTypes fuel dep memo (label :: visiting)).1 = answer dep ∧
        Inv (calculateDistance depEdges impactTypes fuel dep memo (label :: visiting)).2)
    (state : (Nat × Nat) × Distances) (hstate : Inv state.2) :
    let result := deps.foldl (visitStep depEdges impactTypes fuel label visiting) state
    result.1 = (deps.foldl (fun best dep => min best (saturatingAdd (answer dep).1 1)) state.1.1,
        deps.foldl (fun best dep => min best ((answer dep).2 + crossing label dep)) state.1.2) ∧
      Inv result.2 := by
  induction deps generalizing state with
  | nil => exact ⟨rfl, hstate⟩
  | cons dep deps ih =>
      obtain ⟨hanswer, hkept⟩ := hvisit dep List.mem_cons_self state.2 hstate
      have hrest := ih (fun other hother => hvisit other (List.mem_cons_of_mem _ hother))
        (visitStep depEdges impactTypes fuel label visiting state dep) hkept
      simp only [List.foldl_cons, ← hanswer]
      exact hrest

/-- How a visit can go. -/
inductive Visit (depEdges : StringMap (List String)) (impactTypes : StringMap ImpactType)
    (label : String) (memo : Distances) (visiting : List String) :
    Nat → (Nat × Nat) × Distances → Prop
  | remembered {fuel : Nat} {distance : Nat × Nat} (h : memo[label]? = some distance) :
      Visit depEdges impactTypes label memo visiting fuel (distance, memo)
  | direct {fuel : Nat} (hnew : label ∉ memo) (h : impactTypes[label]? = some .direct) :
      Visit depEdges impactTypes label memo visiting fuel ((0, 0), memo.insert label (0, 0))
  | opened {fuel : Nat} (hnew : label ∉ memo) (h : label ∈ visiting) :
      Visit depEdges impactTypes label memo visiting fuel ((0, 0), memo)
  | unattributed {fuel : Nat} (hnew : label ∉ memo) (htype : impactTypes[label]? ≠ some .direct)
      (hopen : label ∉ visiting) (h : impactedDeps depEdges impactTypes label = []) :
      Visit depEdges impactTypes label memo visiting fuel ((0, 0), memo.insert label (0, 0))
  | exhausted (hnew : label ∉ memo) (hopen : label ∉ visiting) :
      Visit depEdges impactTypes label memo visiting 0 ((0, 0), memo)
  | searched {fuel : Nat} (hnew : label ∉ memo) (htype : impactTypes[label]? ≠ some .direct)
      (hopen : label ∉ visiting) (h : impactedDeps depEdges impactTypes label ≠ []) :
      Visit depEdges impactTypes label memo visiting (fuel + 1)
        ((visitDeps depEdges impactTypes fuel label memo visiting).1,
          (visitDeps depEdges impactTypes fuel label memo visiting).2.insert label
            (visitDeps depEdges impactTypes fuel label memo visiting).1)

theorem calculateDistance_visit (fuel : Nat) (label : String) (memo : Distances)
    (visiting : List String) :
    Visit depEdges impactTypes label memo visiting fuel
      (calculateDistance depEdges impactTypes fuel label memo visiting) := by
  cases hmemo : memo[label]? with
  | some distance =>
      have heq : calculateDistance depEdges impactTypes fuel label memo visiting =
          (distance, memo) := by
        rw [calculateDistance.eq_def]
        simp only [hmemo]
      rw [heq]
      exact .remembered hmemo
  | none =>
      have hnew : label ∉ memo := by
        simp [Std.ExtTreeMap.mem_iff_isSome_getElem?, hmemo]
      rw [calculateDistance.eq_def]
      simp only [hmemo]
      split_ifs with hdirect hopen hdeps
      · exact .direct hnew hdirect
      · exact .opened hnew hopen
      · exact .unattributed hnew hdirect hopen (List.isEmpty_iff.mp hdeps)
      · have hne : impactedDeps depEdges impactTypes label ≠ [] :=
          fun h => hdeps (List.isEmpty_iff.mpr h)
        cases fuel with
        | zero => exact .exhausted hnew hopen
        | succ fuel => exact .searched hnew hdirect hopen hne

theorem foldl_keeps {σ : Type} {f : σ × Distances → String → σ × Distances} {deps : List String}
    {Inv : Distances → Prop} (h : ∀ state, ∀ dep ∈ deps, Inv state.2 → Inv (f state dep).2)
    (state : σ × Distances) (hstate : Inv state.2) : Inv (deps.foldl f state).2 := by
  induction deps generalizing state with
  | nil => exact hstate
  | cons dep deps ih =>
      apply ih
      · exact fun state other hother => h state other (List.mem_cons_of_mem _ hother)
      · exact h state dep List.mem_cons_self hstate

/-- Labels whose searches are open are indirect and not in the memo. -/
def Pending (impactTypes : StringMap ImpactType) (visiting : List String) (memo : Distances) :
    Prop :=
  ∀ label ∈ visiting, label ∉ memo ∧ impactTypes[label]? ≠ some .direct

theorem Pending.cons {visiting : List String} {memo : Distances}
    (h : Pending impactTypes visiting memo) {label : String} (hnew : label ∉ memo)
    (htype : impactTypes[label]? ≠ some .direct) :
    Pending impactTypes (label :: visiting) memo := by
  intro other hother
  rcases List.mem_cons.mp hother with rfl | hother
  · exact ⟨hnew, htype⟩
  · exact h other hother

theorem Pending.insert {visiting : List String} {memo : Distances}
    (h : Pending impactTypes visiting memo) {label : String}
    (hlabel : label ∉ visiting) (distance : Nat × Nat) :
    Pending impactTypes visiting (memo.insert label distance) := by
  intro other hother
  refine ⟨?_, (h other hother).2⟩
  intro hmem
  rcases Std.ExtTreeMap.mem_insert.mp hmem with heq | hmem
  · rw [compare_eq_iff_eq] at heq
    exact hlabel (heq ▸ hother)
  · exact (h other hother).1 hmem

/-- No visit finishes a search that is open around it. -/
theorem calculateDistance_pending (fuel : Nat) (label : String) {memo : Distances}
    {visiting : List String} (h : Pending impactTypes visiting memo) :
    Pending impactTypes visiting
      (calculateDistance depEdges impactTypes fuel label memo visiting).2 := by
  induction fuel using Nat.strong_induction_on generalizing label memo visiting with
  | _ fuel ih =>
      have hvisit := @calculateDistance_visit depEdges impactTypes fuel label memo visiting
      generalize calculateDistance depEdges impactTypes fuel label memo visiting = result
        at hvisit ⊢
      cases hvisit with
      | remembered hmemo => exact h
      | direct hnew hdirect =>
          apply h.insert
          exact fun hmem => (h label hmem).2 hdirect
      | opened hnew hopen => exact h
      | unattributed hnew htype hopen hdeps => exact h.insert hopen _
      | exhausted hnew hopen => exact h
      | @searched fuel hnew htype hopen hdeps =>
          apply Pending.insert _ hopen
          have hinner : Pending impactTypes (label :: visiting)
              (visitDeps depEdges impactTypes fuel label memo visiting).2 := by
            apply foldl_keeps _ _ (h.cons hnew htype)
            intro state dep _ hstate
            exact ih fuel (Nat.lt_succ_self fuel) dep hstate
          exact fun other hother => hinner other (List.mem_cons_of_mem _ hother)

/-- What a visit answers while `opened` is under way. -/
noncomputable def answer (depEdges : StringMap (List String)) (impactTypes : StringMap ImpactType)
    (opened : List String) (dep : String) : Nat × Nat :=
  (min (if dep ∈ opened then 0 else leastTarget depEdges impactTypes dep) usizeMax,
    min (if dep ∈ opened then 0 else leastPackage depEdges impactTypes dep) usizeMax)

theorem answer_opened {opened : List String} {dep : String} (h : dep ∈ opened) :
    answer depEdges impactTypes opened dep = (0, 0) := by
  simp [answer, h]

theorem Placed.eq_answer {opened : List String} {dep : String} {distance : Nat × Nat}
    (h : Placed depEdges impactTypes dep distance) (hdep : dep ∉ opened) :
    distance = answer depEdges impactTypes opened dep := by
  rw [h.eq, answer, if_neg hdep, if_neg hdep]

theorem min_saturatingAdd_one (n : Nat) :
    min (saturatingAdd (min n usizeMax) 1) usizeMax = min (1 + n) usizeMax := by
  rw [saturatingAdd]
  omega

theorem min_add_crossing (label dep : String) (n : Nat) :
    min (min n usizeMax + crossing label dep) usizeMax = min (crossing label dep + n) usizeMax := by
  have := crossing_le_one label dep
  omega

theorem exists_isLeast_of_mem {α : Type} {items : List α} (hne : items ≠ []) (f : α → Nat) :
    ∃ m, IsLeast {n | ∃ item ∈ items, f item = n} m := by
  obtain ⟨item, rest, rfl⟩ := List.exists_cons_of_ne_nil hne
  have hsome : ({n | ∃ other ∈ item :: rest, f other = n} : Set Nat).Nonempty :=
    ⟨f item, item, List.mem_cons_self, rfl⟩
  exact ⟨_, Nat.sInf_mem hsome, fun _ hn => Nat.sInf_le hn⟩

/-- The minimum over the answers of a label's dependencies is its own least cost. -/
theorem placed_of_answers (hsettled : CyclesSettled depEdges impactTypes) {label : String}
    {opened : List String} (hindirect : impactTypes[label]? = some .indirect)
    (hdeps : impactedDeps depEdges impactTypes label ≠ []) (hself : label ∈ opened)
    (hopened : ∀ v ∈ opened, ReflTransGen (Expands depEdges impactTypes) v label)
    (hplaced : ∀ dep ∈ impactedDeps depEdges impactTypes label, dep ∉ opened →
      ∃ distance, Placed depEdges impactTypes dep distance) :
    Placed depEdges impactTypes label
      ((impactedDeps depEdges impactTypes label).foldl (fun best dep =>
          min best (saturatingAdd (answer depEdges impactTypes opened dep).1 1)) usizeMax,
        (impactedDeps depEdges impactTypes label).foldl (fun best dep =>
          min best ((answer depEdges impactTypes opened dep).2 + crossing label dep))
          usizeMax) := by
  obtain ⟨t, ht⟩ := exists_isLeast_of_mem hdeps fun dep =>
    1 + (if dep ∈ opened then 0 else leastTarget depEdges impactTypes dep)
  obtain ⟨p, hp⟩ := exists_isLeast_of_mem hdeps fun dep =>
    crossing label dep + (if dep ∈ opened then 0 else leastPackage depEdges impactTypes dep)
  have htarget := isLeast_targetCost_of_deps hsettled hindirect hdeps hself hopened
    (fun dep hdep hnew => (hplaced dep hdep hnew).elim fun _ h => h.target) ht
  have hpackage := isLeast_packageCost_of_deps hsettled hindirect hdeps hself hopened
    (fun dep hdep hnew => (hplaced dep hdep hnew).elim fun _ h => h.package) hp
  refine ⟨⟨t, htarget.1⟩, ⟨p, hpackage.1⟩, ?_⟩
  simp only [answer]
  rw [(isLeast_leastTarget ⟨t, htarget.1⟩).unique htarget,
    (isLeast_leastPackage ⟨p, hpackage.1⟩).unique hpackage,
    foldl_min_eq ht fun dep _ => min_saturatingAdd_one _,
    foldl_min_eq hp fun dep _ => min_add_crossing label dep _]

/-- An open label answers zero and leaves the memo alone. -/
theorem calculateDistance_opened (fuel : Nat) {label : String} {memo : Distances}
    {visiting : List String} (hpending : Pending impactTypes visiting memo)
    (h : label ∈ visiting) :
    calculateDistance depEdges impactTypes fuel label memo visiting = ((0, 0), memo) := by
  have hvisit := @calculateDistance_visit depEdges impactTypes fuel label memo visiting
  generalize calculateDistance depEdges impactTypes fuel label memo visiting = result
    at hvisit ⊢
  cases hvisit with
  | remembered hmemo => exact absurd (mem_of_getElem? hmemo) (hpending label h).1
  | direct _ hdirect => exact absurd hdirect (hpending label h).2
  | opened _ _ => rfl
  | unattributed _ _ hnot _ => exact absurd h hnot
  | exhausted _ _ => rfl
  | searched _ _ hnot _ => exact absurd h hnot

/-- A visit with enough fuel of a label that is not open answers its least cost and keeps
the memo exact. -/
theorem calculateDistance_placed (hsettled : CyclesSettled depEdges impactTypes) (fuel : Nat)
    {label : String} (hlabel : label ∈ impactTypes) {memo : Distances} {visiting : List String}
    (hfuel : (unvisited impactTypes visiting).length ≤ fuel) (hopen : label ∉ visiting)
    (hvisiting : ∀ v ∈ visiting, ReflTransGen (Expands depEdges impactTypes) v label)
    (hpending : Pending impactTypes visiting memo) (hexact : Exact depEdges impactTypes memo) :
    Placed depEdges impactTypes label
        (calculateDistance depEdges impactTypes fuel label memo visiting).1 ∧
      Exact depEdges impactTypes
        (calculateDistance depEdges impactTypes fuel label memo visiting).2 := by
  induction fuel using Nat.strong_induction_on generalizing label memo visiting with
  | _ fuel ih =>
      have hless := unvisited_cons_length_lt hlabel hopen
      have hvisit := @calculateDistance_visit depEdges impactTypes fuel label memo visiting
      generalize calculateDistance depEdges impactTypes fuel label memo visiting = result
        at hvisit ⊢
      have hindirect := @indirect_of_not_direct impactTypes _ hlabel
      cases hvisit with
      | remembered hmemo => exact ⟨hexact label _ hmemo, hexact⟩
      | direct hnew hdirect =>
          have hbase : Base depEdges impactTypes label := .inl hdirect
          have hplaced := hbase.placed
          exact ⟨hplaced, hexact.insert hplaced⟩
      | opened hnew hmem => exact absurd hmem hopen
      | unattributed hnew htype _ hdeps =>
          have hplaced := Base.placed (.inr ⟨hindirect htype, hdeps⟩)
          exact ⟨hplaced, hexact.insert hplaced⟩
      | exhausted hnew _ => omega
      | @searched fuel hnew htype _ hdeps =>
          have hopened : ∀ v ∈ label :: visiting,
              ReflTransGen (Expands depEdges impactTypes) v label := by
            intro v hv
            rcases List.mem_cons.mp hv with rfl | hv
            · exact .refl
            · exact hvisiting v hv
          have hdep : ∀ dep ∈ impactedDeps depEdges impactTypes label, ∀ memo,
              Pending impactTypes (label :: visiting) memo →
              Exact depEdges impactTypes memo → dep ∉ label :: visiting →
              Placed depEdges impactTypes dep
                (calculateDistance depEdges impactTypes fuel dep memo (label :: visiting)).1 ∧
              Exact depEdges impactTypes
                (calculateDistance depEdges impactTypes fuel dep memo (label :: visiting)).2 := by
            intro dep hdep memo hpending hexact hnew
            apply ih fuel (Nat.lt_succ_self fuel) (mem_of_mem_impactedDeps hdep) (by omega) hnew _
              hpending hexact
            exact fun v hv => (hopened v hv).tail ⟨hindirect htype, hdep⟩
          have hanswers : ∀ dep ∈ impactedDeps depEdges impactTypes label, ∀ memo,
              Pending impactTypes (label :: visiting) memo ∧ Exact depEdges impactTypes memo →
              (calculateDistance depEdges impactTypes fuel dep memo (label :: visiting)).1 =
                  answer depEdges impactTypes (label :: visiting) dep ∧
                Pending impactTypes (label :: visiting)
                  (calculateDistance depEdges impactTypes fuel dep memo
                    (label :: visiting)).2 ∧
                Exact depEdges impactTypes
                  (calculateDistance depEdges impactTypes fuel dep memo
                    (label :: visiting)).2 := by
            intro dep hmem memo ⟨hpending, hexact⟩
            by_cases hopen : dep ∈ label :: visiting
            · rw [calculateDistance_opened fuel hpending hopen, answer_opened hopen]
              exact ⟨rfl, hpending, hexact⟩
            · have hfound := hdep dep hmem memo hpending hexact hopen
              exact ⟨hfound.1.eq_answer hopen, calculateDistance_pending fuel dep hpending,
                hfound.2⟩
          have hloop := foldl_visitStep hanswers ((usizeMax, usizeMax), memo)
            ⟨hpending.cons hnew htype, hexact⟩
          have hplaced := placed_of_answers hsettled (hindirect htype) hdeps
            List.mem_cons_self hopened fun dep hmem hopen =>
              ⟨_, (hdep dep hmem memo (hpending.cons hnew htype) hexact hopen).1⟩
          have heq : (visitDeps depEdges impactTypes fuel label memo visiting).1 = _ := hloop.1
          rw [← heq] at hplaced
          exact ⟨hplaced, Exact.insert hloop.2.2 hplaced⟩

/-- Whatever order the labels are visited in, the memo ends exact. -/
theorem distances_exact (hsettled : CyclesSettled depEdges impactTypes) {order : List String}
    (horder : ∀ label ∈ order, label ∈ impactTypes) :
    Exact depEdges impactTypes (distances depEdges impactTypes order) := by
  have hrun : ∀ (labels : List String) (memo : Distances),
      (∀ label ∈ labels, label ∈ impactTypes) → Exact depEdges impactTypes memo →
      Exact depEdges impactTypes (labels.foldl (fun memo label =>
        (calculateDistance depEdges impactTypes impactTypes.keys.length label memo []).2)
        memo) := by
    intro labels
    induction labels with
    | nil => exact fun memo _ hmemo => hmemo
    | cons label labels ih =>
        intro memo hlabels hmemo
        apply ih _ fun other hother => hlabels other (List.mem_cons_of_mem _ hother)
        have hpending : Pending impactTypes [] memo := by simp [Pending]
        exact (calculateDistance_placed hsettled _ (hlabels label List.mem_cons_self)
          (List.length_filter_le _ _) List.not_mem_nil (by simp) hpending hmemo).2
  apply hrun order ∅ horder
  intro label distance hmemo
  simp at hmemo

end Search

/-! ## Acyclic graphs -/

section Acyclic

variable {depEdges : StringMap (List String)} {impactTypes : StringMap ImpactType}
  (hacyclic : ∀ label, ¬ TransGen (Uses depEdges impactTypes) label label)

include hacyclic

theorem not_expands_cycle (label : String) :
    ¬ TransGen (Expands depEdges impactTypes) label label := by
  intro hcycle
  apply hacyclic label
  exact TransGen.mono (fun _ _ (h : Expands depEdges impactTypes _ _) => h.uses) _ _ hcycle

theorem cyclesSettled_of_acyclic : CyclesSettled depEdges impactTypes := by
  intro label dep hdep _ hback
  exact absurd (TransGen.head' hdep hback) (not_expands_cycle hacyclic label)

theorem targetStop_eq_of_acyclic :
    TargetStop depEdges impactTypes = fun label n => Base depEdges impactTypes label ∧ n = 0 := by
  funext label n
  simp [TargetStop, not_expands_cycle hacyclic label]

theorem packageStop_eq_of_acyclic :
    PackageStop depEdges impactTypes = fun label n => Base depEdges impactTypes label ∧ n = 0 := by
  funext label n
  simp [PackageStop, not_expands_cycle hacyclic label]

/-- A path visits no label twice, so it has fewer hops than there are impacted labels. -/
theorem chain_length_le_of_acyclic {label : String} (hlabel : label ∈ impactTypes)
    {path : List String}
    (hpath : ChainTo (Uses depEdges impactTypes) (Base depEdges impactTypes) label path) :
    path.length ≤ impactTypes.size := by
  have hpairs : path.Pairwise (TransGen (Uses depEdges impactTypes)) := by
    apply List.isChain_iff_pairwise.mp
    exact hpath.chain.imp fun _ _ h => .single h
  have hnodup : path.Nodup := by
    apply hpairs.imp
    rintro a b hab rfl
    exact hacyclic a hab
  have hsubset : path ⊆ impactTypes.keys := by
    intro other hother
    apply Std.ExtTreeMap.mem_keys.mpr
    obtain ⟨before, after, rfl⟩ := List.append_of_mem hother
    cases before.eq_nil_or_concat' with
    | inl hnil =>
        subst hnil
        obtain rfl : other = label := by simpa using hpath.head
        exact hlabel
    | inr hlast =>
        obtain ⟨front, last, rfl⟩ := hlast
        have hchain := hpath.chain
        rw [List.append_assoc, List.singleton_append, List.isChain_append_cons_cons] at hchain
        exact mem_of_mem_impactedDeps hchain.2.1.2
  rw [← Std.ExtTreeMap.length_keys]
  exact (hnodup.subperm hsubset).length_le

end Acyclic

theorem chainCost_crossing_le (path : List String) :
    chainCost crossing path ≤ path.length - 1 := by
  rw [← chainCost_one]
  induction path with
  | nil => exact Nat.le_refl 0
  | cons label path ih =>
      cases path with
      | nil => exact Nat.le_refl 0
      | cons dep path => exact Nat.add_le_add (crossing_le_one label dep) ih

/-- On an acyclic graph that fits into memory a placed label has the least distances of its
dependency paths to base labels. -/
theorem Placed.isLeast_of_acyclic {depEdges : StringMap (List String)}
    {impactTypes : StringMap ImpactType}
    (hacyclic : ∀ label, ¬ TransGen (Uses depEdges impactTypes) label label)
    (hsize : impactTypes.size ≤ usizeMax) {label : String} (hlabel : label ∈ impactTypes)
    {distance : Nat × Nat} (h : Placed depEdges impactTypes label distance) :
    IsLeast {n | ∃ path, ChainTo (Uses depEdges impactTypes) (Base depEdges impactTypes) label
      path ∧ path.length - 1 = n} distance.1 ∧
    IsLeast {n | ∃ path, ChainTo (Uses depEdges impactTypes) (Base depEdges impactTypes) label
      path ∧ chainCost crossing path = n} distance.2 := by
  have htarget := isLeast_leastTarget h.target
  have hpackage := isLeast_leastPackage h.package
  simp only [TargetCost, targetStop_eq_of_acyclic hacyclic, walkCost_iff_chain,
    chainCost_one] at htarget
  simp only [PackageCost, packageStop_eq_of_acyclic hacyclic, walkCost_iff_chain] at hpackage
  have hbound : leastTarget depEdges impactTypes label ≤ usizeMax := by
    obtain ⟨path, hpath, heq⟩ := htarget.1
    have := chain_length_le_of_acyclic hacyclic hlabel hpath
    omega
  have hbound' : leastPackage depEdges impactTypes label ≤ usizeMax := by
    obtain ⟨path, hpath, heq⟩ := hpackage.1
    have := chain_length_le_of_acyclic hacyclic hlabel hpath
    have := chainCost_crossing_le path
    omega
  rw [h.eq, min_eq_left hbound, min_eq_left hbound']
  exact ⟨htarget, hpackage⟩

/-! ## The report -/

variable {D : Type} [DecidableEq D]

theorem filterMapM_pure {ε α β : Type} (items : List α) (f : α → β) :
    items.filterMapM (fun item => (pure (some (f item)) : Except ε (Option β))) =
      pure (items.map f) := by
  rw [Outcome.filterMapM_eq_mapM, List.mapM_pure]
  simp [List.filterMap_map]

/-- Without filters the report is the memo, reordered. -/
theorem impactedTargetsWithDistances_unfiltered (order : StringMap ImpactType → List String)
    (start final : StringMap (TargetHash D)) (depEdges : StringMap (List String)) :
    ∃ targets, impactedTargetsWithDistances order start final depEdges none false = .ok targets ∧
      targets.Perm ((distances depEdges (impactedTypes start final)
        (order (impactedTypes start final))).toList.map fun entry =>
          ⟨entry.1, entry.2.1, entry.2.2⟩) := by
  have hloop := @filterMapM_pure Failure _ _
    (distances depEdges (impactedTypes start final) (order (impactedTypes start final))).toList
    fun entry => (⟨entry.1, entry.2.1, entry.2.2⟩ : ImpactedTargetWithDistance)
  simp only [impactedTargetsWithDistances, Bool.not_false, Bool.true_or, List.filter_true]
  refine ⟨_, congrArg (fun found => found >>= _) hloop, ?_⟩
  exact List.perm_insertionSort _ _

/-- Where cycles are settled every impacted label is reported once, with its distances. -/
theorem impactedTargetsWithDistances_placed {order : StringMap ImpactType → List String}
    (horder : ∀ impactTypes, (order impactTypes).Perm impactTypes.keys)
    (start final : StringMap (TargetHash D)) (depEdges : StringMap (List String))
    (hsettled : CyclesSettled depEdges (impactedTypes start final)) :
    ∃ targets, impactedTargetsWithDistances order start final depEdges none false = .ok targets ∧
      (targets.map (·.label)).Nodup ∧
      (∀ label, label ∈ targets.map (·.label) ↔ label ∈ impactedTypes start final) ∧
      ∀ target ∈ targets, Placed depEdges (impactedTypes start final) target.label
        (target.targetDistance, target.packageDistance) := by
  obtain ⟨targets, htargets, hperm⟩ :=
    impactedTargetsWithDistances_unfiltered order start final depEdges
  have hmem : ∀ label ∈ order (impactedTypes start final), label ∈ impactedTypes start final :=
    fun label hlabel => Std.ExtTreeMap.mem_keys.mp ((horder _).mem_iff.mp hlabel)
  have hlabels : (targets.map (·.label)).Perm (distances depEdges (impactedTypes start final)
      (order (impactedTypes start final))).keys := by
    have := hperm.map (·.label)
    rw [List.map_map] at this
    rw [← Std.ExtTreeMap.map_fst_toList_eq_keys]
    exact this
  refine ⟨targets, htargets, hlabels.nodup_iff.mpr Std.ExtTreeMap.nodup_keys, ?_, ?_⟩
  · intro label
    rw [hlabels.mem_iff, Std.ExtTreeMap.mem_keys, mem_distances (horder _)]
  · intro target htarget
    obtain ⟨entry, hentry, rfl⟩ := List.mem_map.mp (hperm.mem_iff.mp htarget)
    exact distances_exact hsettled hmem entry.1 entry.2
      (Std.ExtTreeMap.mem_toList_iff_getElem?_eq_some.mp hentry)

theorem size_impactedTypes_le (start final : StringMap (TargetHash D)) :
    (impactedTypes start final).size ≤ final.size :=
  Std.ExtTreeMap.size_filterMap_le_size

/-- On an acyclic graph every impacted label is reported once, with the least number of hops
and, independently, of package-crossing hops over its dependency paths to base labels. -/
theorem impactedTargetsWithDistances_shortest {order : StringMap ImpactType → List String}
    (horder : ∀ impactTypes, (order impactTypes).Perm impactTypes.keys)
    (start final : StringMap (TargetHash D)) (depEdges : StringMap (List String))
    (hsize : final.size ≤ usizeMax)
    (hacyclic : ∀ label, ¬ TransGen (Uses depEdges (impactedTypes start final)) label label) :
    ∃ targets, impactedTargetsWithDistances order start final depEdges none false = .ok targets ∧
      (targets.map (·.label)).Nodup ∧
      (∀ label, label ∈ targets.map (·.label) ↔ label ∈ impactedTypes start final) ∧
      ∀ target ∈ targets,
        IsLeast {n | ∃ path, ChainTo (Uses depEdges (impactedTypes start final))
          (Base depEdges (impactedTypes start final)) target.label path ∧
          path.length - 1 = n} target.targetDistance ∧
        IsLeast {n | ∃ path, ChainTo (Uses depEdges (impactedTypes start final))
          (Base depEdges (impactedTypes start final)) target.label path ∧
          chainCost crossing path = n} target.packageDistance := by
  obtain ⟨targets, htargets, hnodup, hreported, hplaced⟩ := impactedTargetsWithDistances_placed
    horder start final depEdges (cyclesSettled_of_acyclic hacyclic)
  refine ⟨targets, htargets, hnodup, hreported, ?_⟩
  intro target htarget
  apply (hplaced target htarget).isLeast_of_acyclic hacyclic
    ((size_impactedTypes_le start final).trans hsize)
  exact (hreported _).mp (List.mem_map_of_mem htarget)

/-- A hash that moved together with its direct hash, or alone. -/
def movedHash (hash directHash : Nat) : TargetHash Nat :=
  ⟨"Rule", .sha256 hash, .sha256 directHash⟩

/-- A changed library and a binary that depends on it, before and after. -/
def libraryHashes (revision : Nat) : StringMap (TargetHash Nat) :=
  ((∅ : StringMap (TargetHash Nat)).insert "//a:lib" (movedHash revision revision)).insert
    "//b:bin" (movedHash revision 0)

def libraryEdges : StringMap (List String) :=
  (∅ : StringMap (List String)).insert "//b:bin" ["//a:lib"]

theorem libraryEdges_acyclic (impactTypes : StringMap ImpactType) (label : String) :
    ¬ TransGen (Uses libraryEdges impactTypes) label label := by
  have hedge : ∀ label dep, Uses libraryEdges impactTypes label dep →
      label = "//b:bin" ∧ dep = "//a:lib" := by
    intro label dep huses
    have hdep := (List.mem_filter.mp huses.2).1
    rw [libraryEdges, Std.ExtTreeMap.getElem?_insert] at hdep
    split at hdep
    · next heq =>
        rw [compare_eq_iff_eq] at heq
        exact ⟨heq.symm, by simpa using hdep⟩
    · simp at hdep
  intro hcycle
  obtain ⟨dep, hfirst, -⟩ := TransGen.head'_iff.mp hcycle
  obtain ⟨last, -, hlast⟩ := TransGen.tail'_iff.mp hcycle
  have hstart := (hedge _ _ hfirst).1
  rw [(hedge _ _ hlast).2] at hstart
  exact absurd hstart (by decide)

theorem library_distances_shortest :
    ∃ targets, impactedTargetsWithDistances Std.ExtTreeMap.keys (libraryHashes 0)
        (libraryHashes 1) libraryEdges none false = .ok targets ∧
      ∀ target ∈ targets,
        IsLeast {n | ∃ path, ChainTo
          (Uses libraryEdges (impactedTypes (libraryHashes 0) (libraryHashes 1)))
          (Base libraryEdges (impactedTypes (libraryHashes 0) (libraryHashes 1)))
          target.label path ∧ path.length - 1 = n} target.targetDistance := by
  obtain ⟨targets, htargets, -, -, hleast⟩ := impactedTargetsWithDistances_shortest
    (fun impactTypes => List.Perm.refl _) (libraryHashes 0) (libraryHashes 1) libraryEdges
    (by decide +kernel) (libraryEdges_acyclic _)
  exact ⟨targets, htargets, fun target htarget => (hleast target htarget).1⟩

end BazelDiff
