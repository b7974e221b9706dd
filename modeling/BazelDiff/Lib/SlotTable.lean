/-
# A table of slots addressed by name and by position

Names are given consecutive positions on first use, and each position holds one
slot. A position handed out once stays valid however many names come later, so
a reader that kept a position and a reader that looks the name up again see the
same slot. `find` is the view by name, with the default slot for a name that has
no position: everything that matters about a table is its `find`.
-/

import Mathlib.Data.List.Sort
import Std.Data.ExtTreeMap

/-- Names, their positions, and one slot a position. -/
structure SlotTable (K V : Type) [Ord K] [Std.TransOrd K] where
  ids : Std.ExtTreeMap K Nat
  slots : List V
  bounded : ∀ {k : K} {i : Nat}, ids[k]? = some i → i < slots.length
  injective : ∀ {k k' : K} {i : Nat}, ids[k]? = some i → ids[k']? = some i → k = k'

namespace SlotTable

variable {K V W : Type} [Ord K] [Std.TransOrd K]

/-- The table with no name. -/
def empty : SlotTable K V where
  ids := ∅
  slots := []
  bounded h := by simp at h
  injective h := by simp at h

/-- The slot of a name that has one. -/
def get (t : SlotTable K V) (k : K) : Option V :=
  t.ids[k]?.bind (t.slots[·]?)

/-- The slot of a name, or the default slot. -/
def find [Inhabited V] (t : SlotTable K V) (k : K) : V :=
  (t.get k).getD default

/-- The same names at the same positions, with every slot `v`. -/
def fill (t : SlotTable K V) (v : W) : SlotTable K W where
  ids := t.ids
  slots := List.replicate t.slots.length v
  bounded h := by simpa using t.bounded h
  injective := t.injective

/-- The same names at the same positions, with every slot changed by `f`. -/
def map (t : SlotTable K V) (f : V → W) : SlotTable K W where
  ids := t.ids
  slots := t.slots.map f
  bounded h := by simpa using t.bounded h
  injective := t.injective

theorem fill_map {U : Type} (t : SlotTable K V) (f : V → W) (v : U) :
    (t.map f).fill v = t.fill v := by
  simp [fill, map]

/-- The names whose slot satisfies `p`, in order. -/
def keysWith [Inhabited V] (t : SlotTable K V) (p : V → Bool) : List K :=
  t.ids.keys.filter fun k => p (t.find k)

variable [Inhabited V]

@[simp]
theorem find_empty (k : K) : (empty : SlotTable K V).find k = default := by
  simp [find, get, empty]

@[simp]
theorem find_fill (t : SlotTable K W) (k : K) : (t.fill (default : V)).find k = default := by
  rw [find, get, fill]
  cases h : t.ids[k]? with
  | none => simp
  | some i => simp [List.getElem?_replicate, t.bounded h]

/-- A change that keeps the default slot shows in every slot. -/
theorem find_map [Inhabited W] (t : SlotTable K V) {f : V → W} (hf : f default = default)
    (k : K) : (t.map f).find k = f (t.find k) := by
  rw [find, find, get, get, map]
  cases t.ids[k]? with
  | none => simp [hf]
  | some i => cases h : t.slots[i]? <;> simp [h, hf]

/-- Reading by position and reading by name agree. -/
theorem slot_eq_find (t : SlotTable K V) {k : K} {i : Nat} (h : t.ids[k]? = some i) :
    t.slots[i]? = some (t.find k) := by
  have hi := t.bounded h
  simp [find, get, h, List.getElem?_eq_getElem hi]

/-- A reader that ignores the default slot cannot tell it from a missing one. -/
theorem bind_get (t : SlotTable K V) (k : K) {f : V → Option W} (hf : f default = none) :
    (t.get k).bind f = f (t.find k) := by
  rw [find]
  cases t.get k with
  | none => simp [hf]
  | some v => simp

theorem find_eq_of_not_mem (t : SlotTable K V) {k : K} (h : t.ids[k]? = none) :
    t.find k = default := by
  simp [find, get, h]

variable [Std.LawfulEqOrd K]

/-- Change the slot of a name, giving the name a position first when it has none. -/
def update (t : SlotTable K V) (k : K) (f : V → V) : SlotTable K V :=
  match h : t.ids[k]? with
  | some i =>
      { t with
        slots := t.slots.modify i f
        bounded := fun hi => by simpa using t.bounded hi }
  | none =>
      { ids := t.ids.insert k t.slots.length
        slots := t.slots ++ [f default]
        bounded := by
          intro k' i hi
          rw [Std.ExtTreeMap.getElem?_insert] at hi
          split_ifs at hi with hk
          · simp_all
          · have := t.bounded hi
            simp only [List.length_append, List.length_cons, List.length_nil]
            omega
        injective := by
          intro k₁ k₂ i h₁ h₂
          rw [Std.ExtTreeMap.getElem?_insert] at h₁ h₂
          split_ifs at h₁ h₂ with hk₁ hk₂
          · rw [← Std.LawfulEqOrd.eq_of_compare hk₁, ← Std.LawfulEqOrd.eq_of_compare hk₂]
          · have := t.bounded h₂
            simp_all
          · have := t.bounded h₁
            simp_all
          · exact t.injective h₁ h₂ }

theorem find_update [DecidableEq K] (t : SlotTable K V) (k k' : K) (f : V → V) :
    (t.update k f).find k' = if k = k' then f (t.find k) else t.find k' := by
  rw [update]
  split
  · next i h =>
      have hi := t.bounded h
      by_cases hk : k = k'
      · subst hk
        simp [find, get, h, List.getElem?_modify, List.getElem?_eq_getElem hi]
      · simp only [find, get, hk, if_false]
        cases h' : t.ids[k']? with
        | none => rfl
        | some j =>
            have hij : i ≠ j := fun hij => hk (t.injective h (hij ▸ h'))
            simp [List.getElem?_modify, hij]
  · next h =>
      by_cases hk : k = k'
      · subst hk
        simp [find, get, h]
      · have hcmp : compare k k' ≠ .eq := fun hc => hk (Std.LawfulEqOrd.eq_of_compare hc)
        simp only [find, get, Std.ExtTreeMap.getElem?_insert, hcmp, if_false, hk]
        cases h' : t.ids[k']? with
        | none => rfl
        | some j => simp [List.getElem?_append_left (t.bounded h')]

/-- Changing one slot before or after a change of all slots. -/
theorem map_update [Inhabited W] (t : SlotTable K V) (k : K) {f : V → W} {g : V → V} {g' : W → W}
    (hf : f default = default) (hg : ∀ v, f (g v) = g' (f v)) :
    (t.update k g).map f = (t.map f).update k g' := by
  have hmodify : ∀ i, (t.slots.modify i g).map f = (t.slots.map f).modify i g' := by
    intro i
    apply List.ext_getElem?
    intro j
    simp only [List.getElem?_map, List.getElem?_modify]
    split_ifs <;> cases t.slots[j]? <;> simp [hg]
  have hids : (t.map f).ids = t.ids := rfl
  rw [update, update]
  split
  · next i h =>
      split
      · next j h' =>
          rw [hids, h] at h'
          obtain rfl := Option.some.inj h'
          simp [map, hmodify]
      · next h' =>
          rw [hids, h] at h'
          cases h'
  · next h =>
      split
      · next j h' =>
          rw [hids, h] at h'
          cases h'
      · simp [map, hg, hf]

@[simp]
theorem find_update_self [DecidableEq K] (t : SlotTable K V) (k : K) (f : V → V) :
    (t.update k f).find k = f (t.find k) := by
  simp [find_update]

theorem find_update_of_ne [DecidableEq K] (t : SlotTable K V) {k k' : K} (h : k ≠ k')
    (f : V → V) : (t.update k f).find k' = t.find k' := by
  simp [find_update, h]

/-- A position once handed out stays with its name. -/
theorem ids_update [DecidableEq K] (t : SlotTable K V) {k : K} {i : Nat}
    (h : t.ids[k]? = some i) (k' : K) (f : V → V) : (t.update k' f).ids[k]? = some i := by
  rw [update]
  split
  · exact h
  · next h' =>
      have hk : k' ≠ k := by rintro rfl; simp [h] at h'
      have hcmp : compare k' k ≠ .eq := fun hc => hk (Std.LawfulEqOrd.eq_of_compare hc)
      simpa [Std.ExtTreeMap.getElem?_insert, hcmp] using h

theorem mem_keysWith (t : SlotTable K V) {p : V → Bool} (hp : p default = false) {k : K} :
    k ∈ t.keysWith p ↔ p (t.find k) = true := by
  rw [keysWith, List.mem_filter, Std.ExtTreeMap.mem_keys, and_iff_right_iff_imp]
  intro hk
  by_contra hmem
  rw [t.find_eq_of_not_mem (Std.ExtTreeMap.getElem?_eq_none hmem), hp] at hk
  exact Bool.false_ne_true hk

/-- The names singled out by a property of their slots depend on the view by name only. -/
theorem keysWith_congr {t t' : SlotTable K V} {p p' : V → Bool} (hp : p default = false)
    (hp' : p' default = false) (h : ∀ k, p (t.find k) = p' (t'.find k)) :
    t.keysWith p = t'.keysWith p' := by
  have ordered : ∀ (t : SlotTable K V) (p : V → Bool),
      (t.keysWith p).Pairwise fun a b => compare a b = .lt := fun t p =>
    t.ids.ordered_keys.sublist List.filter_sublist
  have nodup : ∀ (t : SlotTable K V) (p : V → Bool), (t.keysWith p).Nodup := fun t p =>
    (ordered t p).imp fun {a b} hab heq => by
      rw [heq, Std.ReflOrd.compare_self] at hab
      cases hab
  have hperm : (t.keysWith p).Perm (t'.keysWith p') := by
    rw [List.perm_ext_iff_of_nodup (nodup t p) (nodup t' p')]
    intro k
    rw [mem_keysWith t hp, mem_keysWith t' hp', h k]
  refine hperm.eq_of_pairwise ?_ (ordered t p) (ordered t' p')
  intro a b _ _ hab hba
  rw [Std.OrientedOrd.eq_swap, hba] at hab
  cases hab

end SlotTable
