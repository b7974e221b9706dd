/-
# Impacted targets with distances

A label is impacted directly when its own contributions changed and indirectly when only
its transitive hash did. The distance of an indirectly impacted label is one more than
the smallest distance among its impacted dependencies. Distances are found by a
depth-first search with a memo, which ends with exactly the impacted labels in it
whatever the edges are and in whatever order the labels are visited.
-/

import BazelDiff.HashFile

namespace BazelDiff

open Text

/-- How a label's hash moved between two revisions. -/
inductive ImpactType
  | direct
  | indirect
  deriving DecidableEq

structure ImpactedTargetWithDistance where
  label : String
  targetDistance : Nat
  packageDistance : Nat
  deriving DecidableEq

variable {D : Type} [DecidableEq D]

/-- How the hash of one label moved, if it did. -/
def impactType (start : StringMap (TargetHash D)) (label : String) (finalHash : TargetHash D) :
    Option ImpactType :=
  match start[label]? with
  | none => some .direct
  | some startingHash =>
      if startingHash.sameAs finalHash then none
      else if startingHash.directHash ≠ finalHash.directHash then some .direct
      else some .indirect

/-- Classifies every label whose hash moved. -/
def impactedTypes (start final : StringMap (TargetHash D)) : StringMap ImpactType :=
  final.filterMap (impactType start)

/-- Target and package distances by label. -/
abbrev Distances := StringMap (Nat × Nat)

/-- `usize::MAX`. -/
def usizeMax : Nat := 2 ^ 64 - 1

def saturatingAdd (a b : Nat) : Nat :=
  min (a + b) usizeMax

/-- The part of a label before its first colon. -/
def distancePackage (label : String) : String :=
  (split ':' label).head?.getD label

section Search

variable (depEdges : StringMap (List String)) (impactTypes : StringMap ImpactType)

/-- The dependencies of a label that are impacted themselves. -/
def impactedDeps (label : String) : List String :=
  ((depEdges[label]?).getD []).filter fun dep => impactTypes.contains dep

/-- The distance of one label and the memo after it. `fuel` bounds the depth. -/
def calculateDistance : Nat → String → Distances → List String → (Nat × Nat) × Distances
  | fuel, label, memo, visiting =>
      match memo[label]? with
      | some distance => (distance, memo)
      | none =>
          if impactTypes[label]? = some .direct then ((0, 0), memo.insert label (0, 0))
          else if label ∈ visiting then ((0, 0), memo)
          else if (impactedDeps depEdges impactTypes label).isEmpty then
            ((0, 0), memo.insert label (0, 0))
          else
            match fuel with
            | 0 => ((0, 0), memo)
            | fuel + 1 =>
                let (distance, memo) := (impactedDeps depEdges impactTypes label).foldl
                  (fun (best, memo) dep =>
                    let (found, memo) := calculateDistance fuel dep memo (label :: visiting)
                    ((min best.1 (saturatingAdd found.1 1),
                      min best.2 (found.2 +
                        if distancePackage dep ≠ distancePackage label then 1 else 0)), memo))
                  ((usizeMax, usizeMax), memo)
                (distance, memo.insert label distance)

/-- The memo after every impacted label was visited, in some order. -/
def distances (order : List String) : Distances :=
  order.foldl
    (fun memo label =>
      (calculateDistance depEdges impactTypes impactTypes.keys.length label memo []).2) ∅

end Search

/-- The impacted labels with their distances. `order` is the order in which the hash map of the
impacted labels is walked. -/
def impactedTargetsWithDistances (order : StringMap ImpactType → List String)
    (start final : StringMap (TargetHash D)) (depEdges : StringMap (List String))
    (targetTypes : Option StringSet) (excludeExternal : Bool) :
    Result (List ImpactedTargetWithDistance) := do
  let impactTypes := impactedTypes start final
  let memo := distances depEdges impactTypes (order impactTypes)
  let impacted ← (memo.toList.filter fun entry =>
    !excludeExternal || !hasPrefix "//external:" entry.1).filterMapM fun entry => do
      if ← accepts entry.1 final targetTypes then
        return some ⟨entry.1, entry.2.1, entry.2.2⟩
      else return none
  let before (a b : ImpactedTargetWithDistance) : Prop :=
    let rank (label : String) := kindRank ((final[label]?).or (start[label]?))
    rank a.label < rank b.label ∨ (rank a.label = rank b.label ∧ a.label ≤ b.label)
  have : DecidableRel before := fun a b => by unfold before; infer_instance
  return impacted.insertionSort before

/-! ## The memo holds the impacted labels -/

section Memo

variable {depEdges : StringMap (List String)} {impactTypes : StringMap ImpactType}

/-- The impacted labels a search below `visiting` can still enter. -/
def unvisited (impactTypes : StringMap ImpactType) (visiting : List String) : List String :=
  impactTypes.keys.filter (· ∉ visiting)

/-- The memo keeps what it has and gains only impacted labels. -/
structure Grows (impactTypes : StringMap ImpactType) (memo result : Distances) : Prop where
  keeps : ∀ key, key ∈ memo → key ∈ result
  gains : ∀ key, key ∈ result → key ∈ memo ∨ key ∈ impactTypes

theorem Grows.refl (memo : Distances) : Grows impactTypes memo memo :=
  ⟨fun _ hkey => hkey, fun _ hkey => .inl hkey⟩

theorem Grows.trans {memo middle result : Distances} (h : Grows impactTypes memo middle)
    (h' : Grows impactTypes middle result) : Grows impactTypes memo result where
  keeps key hkey := h'.keeps key (h.keeps key hkey)
  gains key hkey := (h'.gains key hkey).elim (h.gains key) .inr

theorem Grows.insert {label : String} (hlabel : label ∈ impactTypes) (memo : Distances)
    (distance : Nat × Nat) : Grows impactTypes memo (memo.insert label distance) where
  keeps key hkey := Std.ExtTreeMap.mem_insert.mpr (.inr hkey)
  gains key hkey := by
    rcases Std.ExtTreeMap.mem_insert.mp hkey with heq | hkey
    · rw [compare_eq_iff_eq] at heq
      exact .inr (heq ▸ hlabel)
    · exact .inl hkey

theorem foldl_grows {σ : Type} {f : σ × Distances → String → σ × Distances} {labels : List String}
    (h : ∀ state, ∀ label ∈ labels, Grows impactTypes state.2 (f state label).2)
    (state : σ × Distances) : Grows impactTypes state.2 (labels.foldl f state).2 := by
  induction labels generalizing state with
  | nil => exact Grows.refl _
  | cons label rest ih =>
      apply (h state label List.mem_cons_self).trans
      exact ih (fun state label hlabel => h state label (List.mem_cons_of_mem _ hlabel)) _

theorem unvisited_cons_length_lt {visiting : List String} {label : String}
    (hlabel : label ∈ impactTypes) (hnew : label ∉ visiting) :
    (unvisited impactTypes (label :: visiting)).length <
      (unvisited impactTypes visiting).length := by
  have hsub : unvisited impactTypes (label :: visiting) =
      (unvisited impactTypes visiting).filter (· ≠ label) := by
    rw [unvisited, unvisited, List.filter_filter]
    apply List.filter_congr
    intro key _
    simp [List.mem_cons, not_or]
  rw [hsub]
  apply List.length_filter_lt_length_iff_exists.mpr
  refine ⟨label, ?_, by simp⟩
  exact List.mem_filter.mpr ⟨Std.ExtTreeMap.mem_keys.mpr hlabel, by simpa using hnew⟩

/-- A visit grows the memo, and with enough fuel its label is in it unless a visit of that label
is under way. -/
theorem calculateDistance_grows (fuel : Nat) {label : String} (hlabel : label ∈ impactTypes)
    (memo : Distances) (visiting : List String)
    (hfuel : (unvisited impactTypes visiting).length ≤ fuel) :
    Grows impactTypes memo (calculateDistance depEdges impactTypes fuel label memo visiting).2 ∧
      (label ∉ visiting →
        label ∈ (calculateDistance depEdges impactTypes fuel label memo visiting).2) := by
  induction fuel generalizing label memo visiting with
  | zero =>
      rw [calculateDistance]
      cases hmemo : memo[label]? with
      | some distance =>
          exact ⟨Grows.refl memo, fun _ => mem_of_getElem? hmemo⟩
      | none =>
          dsimp only
          split_ifs with hdirect hvisiting hdeps
          · exact ⟨Grows.insert hlabel memo _, fun _ => Std.ExtTreeMap.mem_insert_self⟩
          · exact ⟨Grows.refl memo, fun hnew => absurd hvisiting hnew⟩
          · exact ⟨Grows.insert hlabel memo _, fun _ => Std.ExtTreeMap.mem_insert_self⟩
          · have hlt := unvisited_cons_length_lt hlabel hvisiting
            omega
  | succ fuel ih =>
      rw [calculateDistance]
      cases hmemo : memo[label]? with
      | some distance =>
          exact ⟨Grows.refl memo, fun _ => mem_of_getElem? hmemo⟩
      | none =>
          dsimp only
          split_ifs with hdirect hvisiting hdeps
          · exact ⟨Grows.insert hlabel memo _, fun _ => Std.ExtTreeMap.mem_insert_self⟩
          · exact ⟨Grows.refl memo, fun hnew => absurd hvisiting hnew⟩
          · exact ⟨Grows.insert hlabel memo _, fun _ => Std.ExtTreeMap.mem_insert_self⟩
          · refine ⟨Grows.trans ?_ (Grows.insert hlabel _ _),
              fun _ => Std.ExtTreeMap.mem_insert_self⟩
            apply foldl_grows _ ((usizeMax, usizeMax), memo)
            intro state dep hdep
            have himpacted : dep ∈ impactTypes := by
              simpa using (List.mem_filter.mp hdep).2
            have hlt := unvisited_cons_length_lt hlabel hvisiting
            exact (ih himpacted state.2 (label :: visiting) (by omega)).1

/-- Whatever the edges and the order are, the memo ends with exactly the impacted labels. -/
theorem mem_distances {order : List String} (horder : order.Perm impactTypes.keys)
    (label : String) : label ∈ distances depEdges impactTypes order ↔ label ∈ impactTypes := by
  have hfuel : (unvisited impactTypes []).length ≤ impactTypes.keys.length :=
    List.length_filter_le _ _
  have hrun : ∀ (labels : List String) (memo : Distances), (∀ label ∈ labels, label ∈ impactTypes) →
      let result := labels.foldl (fun memo label =>
        (calculateDistance depEdges impactTypes impactTypes.keys.length label memo []).2) memo
      Grows impactTypes memo result ∧ ∀ label ∈ labels, label ∈ result := by
    intro labels
    induction labels with
    | nil => exact fun memo _ => ⟨Grows.refl memo, by simp⟩
    | cons first rest ih =>
        intro memo hlabels
        have hfirst := @calculateDistance_grows depEdges impactTypes _ _
          (hlabels first List.mem_cons_self) memo [] hfuel
        obtain ⟨hrest, hall⟩ := ih
          (calculateDistance depEdges impactTypes impactTypes.keys.length first memo []).2
          fun label hlabel => hlabels label (List.mem_cons_of_mem _ hlabel)
        refine ⟨hfirst.1.trans hrest, ?_⟩
        intro label hlabel
        rcases List.mem_cons.mp hlabel with rfl | hlabel
        · exact hrest.keeps label (hfirst.2 List.not_mem_nil)
        · exact hall label hlabel
  have horder' : ∀ label, label ∈ order ↔ label ∈ impactTypes :=
    fun label => horder.mem_iff.trans Std.ExtTreeMap.mem_keys
  obtain ⟨hgrows, hall⟩ := hrun order ∅ fun label hlabel => (horder' label).mp hlabel
  constructor
  · intro hmem
    exact (hgrows.gains label hmem).resolve_left Std.ExtTreeMap.not_mem_empty
  · exact fun himpacted => hall label ((horder' label).mpr himpacted)

end Memo

end BazelDiff
