/-
# Two maps with related entries

Two maps are related when they have the same keys and related values at each. The
relation survives the updates caches go through, and a map that only ever gains
entries can be read before or after it gained them.
-/

import Mathlib.Data.List.Forall2
import Std.Data.ExtTreeMap

/-- Equal as soon as `P` holds. -/
def AgreeIf {α : Type} (P : Prop) (a b : α) : Prop := P → a = b

theorem AgreeIf.refl {α : Type} {P : Prop} (a : α) : AgreeIf P a a := fun _ => rfl

namespace Option.Rel

variable {α β γ δ : Type} {r : α → β → Prop} {s : γ → δ → Prop}

theorem isSome_eq {a : Option α} {b : Option β} (h : Option.Rel r a b) :
    a.isSome = b.isSome := by
  cases h <;> rfl

theorem dest {a : Option α} {b : Option β} (h : Option.Rel r a b) :
    (a = .none ∧ b = .none) ∨ ∃ x y, a = .some x ∧ b = .some y ∧ r x y := by
  cases h with
  | none => exact Or.inl ⟨rfl, rfl⟩
  | some h => exact Or.inr ⟨_, _, rfl, rfl, h⟩

theorem bind {a : Option α} {b : Option β} {f : α → Option γ} {g : β → Option δ}
    (h : Option.Rel r a b) (hfg : ∀ x y, r x y → Option.Rel s (f x) (g y)) :
    Option.Rel s (a.bind f) (b.bind g) := by
  cases h with
  | none => exact .none
  | some h => exact hfg _ _ h

theorem map {a : Option α} {b : Option β} {f : α → γ} {g : β → δ}
    (h : Option.Rel r a b) (hfg : ∀ x y, r x y → s (f x) (g y)) :
    Option.Rel s (a.map f) (b.map g) := by
  cases h with
  | none => exact .none
  | some h => exact .some (hfg _ _ h)

theorem or {a a' : Option α} {b b' : Option β} (h : Option.Rel r a b)
    (h' : Option.Rel r a' b') : Option.Rel r (a.or a') (b.or b') := by
  cases h with
  | none => exact h'
  | some h => exact .some h

theorem mono {r' : α → β → Prop} {a : Option α} {b : Option β} (h : Option.Rel r a b)
    (hrr : ∀ x y, r x y → r' x y) : Option.Rel r' a b := by
  cases h with
  | none => exact .none
  | some h => exact .some (hrr _ _ h)

theorem map_const {a : Option α} {b : Option β} (h : Option.Rel r a b) (c : γ) :
    (a.map fun _ => c) = b.map fun _ => c := by
  cases h <;> rfl

theorem refl_of {r : α → α → Prop} (hr : ∀ x, r x x) (a : Option α) : Option.Rel r a a := by
  cases a with
  | none => exact .none
  | some x => exact .some (hr x)

end Option.Rel

variable {K V W : Type} [Ord K] [Std.TransOrd K]

/-- The same keys, with related values. -/
def Pointwise (R : V → W → Prop) (m : Std.ExtTreeMap K V) (m' : Std.ExtTreeMap K W) : Prop :=
  ∀ k : K, Option.Rel R m[k]? m'[k]?

namespace Pointwise

variable {R : V → W → Prop} {m : Std.ExtTreeMap K V} {m' : Std.ExtTreeMap K W}

theorem empty : Pointwise R (∅ : Std.ExtTreeMap K V) (∅ : Std.ExtTreeMap K W) := by
  intro k
  simp

theorem refl {R : V → V → Prop} (hR : ∀ v, R v v) (m : Std.ExtTreeMap K V) :
    Pointwise R m m :=
  fun k => Option.Rel.refl_of hR m[k]?

theorem eq [Std.LawfulEqOrd K] {m m' : Std.ExtTreeMap K V} (h : Pointwise Eq m m') : m = m' := by
  refine Std.ExtTreeMap.ext_getElem? fun k => ?_
  rcases (h k).dest with ⟨h₁, h₂⟩ | ⟨a, b, h₁, h₂, hab⟩
  · rw [h₁, h₂]
  · rw [h₁, h₂, hab]

theorem mono {R' : V → W → Prop} (h : Pointwise R m m') (hRR : ∀ v w, R v w → R' v w) :
    Pointwise R' m m' :=
  fun k => (h k).mono hRR

theorem insert (h : Pointwise R m m') (k : K) {v : V} {w : W} (hvw : R v w) :
    Pointwise R (m.insert k v) (m'.insert k w) := by
  intro k'
  rw [Std.ExtTreeMap.getElem?_insert, Std.ExtTreeMap.getElem?_insert]
  split_ifs with hk
  · exact .some hvw
  · exact h k'

theorem insertIfNew (h : Pointwise R m m') (k : K) {v : V} {w : W} (hvw : R v w) :
    Pointwise R (m.insertIfNew k v) (m'.insertIfNew k w) := by
  intro k'
  have hmem : k ∈ m ↔ k ∈ m' := by
    rw [← Std.ExtTreeMap.isSome_getElem?_iff_mem, ← Std.ExtTreeMap.isSome_getElem?_iff_mem,
      (h k).isSome_eq]
  rw [Std.ExtTreeMap.getElem?_insertIfNew, Std.ExtTreeMap.getElem?_insertIfNew]
  by_cases hk : compare k k' = .eq ∧ k ∉ m
  · rw [if_pos hk, if_pos ⟨hk.1, fun hmem' => hk.2 (hmem.mpr hmem')⟩]
    exact .some hvw
  · rw [if_neg hk, if_neg fun hk' => hk ⟨hk'.1, fun hmem' => hk'.2 (hmem.mp hmem')⟩]
    exact h k'

theorem alter (h : Pointwise R m m') (k : K) {f : Option V → Option V} {g : Option W → Option W}
    (hfg : ∀ a b, Option.Rel R a b → Option.Rel R (f a) (g b)) :
    Pointwise R (m.alter k f) (m'.alter k g) := by
  intro k'
  rw [Std.ExtTreeMap.getElem?_alter, Std.ExtTreeMap.getElem?_alter]
  split_ifs
  · exact hfg _ _ (h k)
  · exact h k'

/-- Two changes can be made in either order when they commute on every entry. -/
theorem alter_comm [Std.LawfulEqOrd K] {R : V → V → Prop} (hR : ∀ v, R v v)
    {f g : Option V → Option V} (hfg : ∀ a, Option.Rel R (g (f a)) (f (g a)))
    (m : Std.ExtTreeMap K V) (k k' : K) :
    Pointwise R ((m.alter k f).alter k' g) ((m.alter k' g).alter k f) := by
  intro k''
  simp only [Std.ExtTreeMap.getElem?_alter, Std.LawfulEqOrd.compare_eq_iff_eq]
  by_cases hk : k = k''
  · subst hk
    by_cases hk' : k' = k
    · subst hk'
      simpa using hfg m[k']?
    · simpa [hk'] using Option.Rel.refl_of hR (f m[k]?)
  · by_cases hk' : k' = k''
    · subst hk'
      simpa [hk] using Option.Rel.refl_of hR (g m[k']?)
    · simpa [hk, hk'] using Option.Rel.refl_of hR m[k'']?

theorem trans {R : V → V → Prop} (hR : ∀ a b c, R a b → R b c → R a c)
    {m m' m'' : Std.ExtTreeMap K V} (h : Pointwise R m m') (h' : Pointwise R m' m'') :
    Pointwise R m m'' := by
  intro k
  rcases (h k).dest with ⟨h₁, h₂⟩ | ⟨a, b, h₁, h₂, hab⟩
  · rw [h₁, ← h₂]
    exact h₂ ▸ h' k
  · rcases (h' k).dest with ⟨h₃, -⟩ | ⟨b', c, h₃, h₄, hbc⟩
    · rw [h₂] at h₃
      cases h₃
    · rw [h₂] at h₃
      obtain rfl := Option.some.inj h₃
      rw [h₁, h₄]
      exact .some (hR a b c hab hbc)

/-- Related maps list the same keys in the same order, with related values. -/
theorem toList [Std.LawfulEqOrd K] (h : Pointwise R m m') :
    List.Forall₂ (fun a b => a.1 = b.1 ∧ R a.2 b.2) m.toList m'.toList := by
  have hkeys : m.toList.map Prod.fst = m'.toList.map Prod.fst := by
    have hunit : m.map (fun _ _ => ()) = m'.map (fun _ _ => ()) := by
      refine Std.ExtTreeMap.ext_getElem? fun k => ?_
      rw [Std.ExtTreeMap.getElem?_map, Std.ExtTreeMap.getElem?_map]
      exact (h k).map_const ()
    have hlists := congrArg (fun u : Std.ExtTreeMap K Unit => u.toList.map Prod.fst) hunit
    simpa [Std.ExtTreeMap.toList_map, Function.comp_def] using hlists
  have hlength : m.toList.length = m'.toList.length := by
    simpa using congrArg List.length hkeys
  refine List.forall₂_iff_get.mpr ⟨hlength, fun i hi hi' => ?_⟩
  have hkey : (m.toList.get ⟨i, hi⟩).1 = (m'.toList.get ⟨i, hi'⟩).1 := by
    have hat := congrArg (·[i]?) hkeys
    simpa only [List.getElem?_map, List.getElem?_eq_getElem hi, List.getElem?_eq_getElem hi',
      Option.map_some, Option.some.injEq, List.get_eq_getElem] using hat
  have hget := Std.ExtTreeMap.mem_toList_iff_getElem?_eq_some.mp (m.toList.get_mem ⟨i, hi⟩)
  have hget' := Std.ExtTreeMap.mem_toList_iff_getElem?_eq_some.mp (m'.toList.get_mem ⟨i, hi'⟩)
  have hrel := h (m.toList.get ⟨i, hi⟩).1
  rw [hget, hkey, hget'] at hrel
  cases hrel with
  | some hvw => exact ⟨hkey, hvw⟩

theorem size_eq [Std.LawfulEqOrd K] (h : Pointwise R m m') : m.size = m'.size := by
  have hkeys : m.map (fun _ _ => ()) = m'.map (fun _ _ => ()) := by
    refine Std.ExtTreeMap.ext_getElem? fun k => ?_
    rw [Std.ExtTreeMap.getElem?_map, Std.ExtTreeMap.getElem?_map]
    exact (h k).map_const ()
  calc m.size = (m.map fun _ _ => ()).size := Std.ExtTreeMap.size_map.symm
    _ = (m'.map fun _ _ => ()).size := by rw [hkeys]
    _ = m'.size := Std.ExtTreeMap.size_map

end Pointwise

/-- A key with a value is in the map. -/
theorem mem_of_getElem? {K V : Type} [Ord K] [Std.TransOrd K] {map : Std.ExtTreeMap K V} {key : K}
    {value : V} (h : map[key]? = some value) : key ∈ map := by
  rw [Std.ExtTreeMap.mem_iff_isSome_getElem?, h]
  rfl

/-- A map's list around one of its entries: no other entry has the key. -/
theorem exists_toList_split {K V : Type} [Ord K] [Std.TransOrd K] [Std.LawfulEqOrd K]
    {map : Std.ExtTreeMap K V} {key : K} {value : V} (h : map[key]? = some value) :
    ∃ front back, map.toList = front ++ (key, value) :: back ∧
      (∀ entry ∈ front, entry.1 ≠ key) ∧ ∀ entry ∈ back, entry.1 ≠ key := by
  obtain ⟨front, back, hlist⟩ :=
    List.append_of_mem (Std.ExtTreeMap.mem_toList_iff_getElem?_eq_some.mpr h)
  have hdistinct := map.distinct_keys_toList
  rw [hlist] at hdistinct
  obtain ⟨-, hback, hacross⟩ := List.pairwise_append.mp hdistinct
  refine ⟨front, back, hlist, ?_, ?_⟩
  · intro entry hentry heq
    exact hacross entry hentry (key, value) List.mem_cons_self (Std.LawfulEqOrd.compare_eq_iff_eq.mpr heq)
  · intro entry hentry heq
    exact (List.pairwise_cons.mp hback).1 entry hentry
      (Std.LawfulEqOrd.compare_eq_iff_eq.mpr heq.symm)

theorem List.Forall₂.exists_left {α β : Type} {R : α → β → Prop} {as : List α} {bs : List β}
    (h : List.Forall₂ R as bs) {b : β} (hb : b ∈ bs) : ∃ a ∈ as, R a b := by
  induction h with
  | nil => cases hb
  | cons hab _ ih =>
      rcases List.mem_cons.mp hb with rfl | hb
      · exact ⟨_, List.mem_cons_self, hab⟩
      · obtain ⟨a, ha, hab⟩ := ih hb
        exact ⟨a, List.mem_cons_of_mem _ ha, hab⟩

theorem List.Forall₂.exists_right {α β : Type} {R : α → β → Prop} {as : List α} {bs : List β}
    (h : List.Forall₂ R as bs) {a : α} (ha : a ∈ as) : ∃ b ∈ bs, R a b :=
  List.Forall₂.exists_left (R := fun b a => R a b) (List.Forall₂.flip h) ha

/-- Related lists agree on what their entries agree on. -/
theorem List.Forall₂.map_eq {α β γ : Type} {R : α → β → Prop} {f : α → γ} {g : β → γ}
    {as : List α} {bs : List β} (h : List.Forall₂ R as bs) (hR : ∀ a b, R a b → g b = f a) :
    bs.map g = as.map f := by
  induction h with
  | nil => rfl
  | cons hab _ ih => rw [List.map_cons, List.map_cons, hR _ _ hab, ih]

/-- Two lists related to a third are the two sides of one list of pairs. -/
theorem List.Forall₂.pairs {α β γ : Type} {R : α → γ → Prop} {S : β → γ → Prop} {as : List α}
    {bs : List β} {cs : List γ} (ha : List.Forall₂ R as cs) (hb : List.Forall₂ S bs cs) :
    ∃ pairs : List (α × β), as = pairs.map Prod.fst ∧ bs = pairs.map Prod.snd ∧
      List.Forall₂ (fun pair c => R pair.1 c ∧ S pair.2 c) pairs cs := by
  induction ha generalizing bs with
  | nil =>
      cases hb
      exact ⟨[], rfl, rfl, .nil⟩
  | cons hac _ ih =>
      cases hb with
      | cons hbc hb =>
          obtain ⟨pairs, rfl, rfl, hpairs⟩ := ih hb
          exact ⟨(_, _) :: pairs, rfl, rfl, .cons ⟨hac, hbc⟩ hpairs⟩
