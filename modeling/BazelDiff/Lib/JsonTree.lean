/-
# Walking a JSON document

A document that describes a tree has the children of a node in an array of it. A walk over such a
tree goes from a node to its children, which are smaller, and may stop at any node that does not
look as expected. A loop over children that collects as it goes yields something when no child
stops it, and then what its steps collect.
-/

import BazelDiff.Lib.Json
import Mathlib.Data.List.Basic

namespace Json

/-- The value an object has under a name. -/
def get (name : String) : Json → Option Json
  | .object entries => lookup name entries
  | _ => none

def asArray : Json → Option (List Json)
  | .array items => some items
  | _ => none

/-- The text an object has under a name. -/
def text (name : String) (node : Json) : Option String :=
  (node.get name).bind asStr

/-- The items of the array an object has under a name. -/
def children (name : String) (node : Json) : Option (List Json) :=
  (node.get name).bind asArray

theorem mem_of_lookup {key : String} {entries : List (String × Json)} {value : Json}
    (h : lookup key entries = some value) : (key, value) ∈ entries := by
  rw [lookup] at h
  obtain ⟨⟨name, found⟩, hfind, rfl⟩ := Option.map_eq_some_iff.mp h
  have hname := List.find?_some hfind
  have hmem := List.mem_of_find?_eq_some hfind
  rw [beq_iff_eq] at hname
  dsimp only at hname
  subst hname
  exact List.mem_reverse.mp hmem

/-- A child is smaller than its parent. -/
theorem sizeOf_lt_of_mem_children {name : String} {node child : Json} {items : List Json}
    (h : node.children name = some items) (hchild : child ∈ items) : sizeOf child < sizeOf node := by
  obtain ⟨value, hvalue, hitems⟩ := Option.bind_eq_some_iff.mp h
  cases node with
  | object entries =>
      have hentry := List.sizeOf_lt_of_mem (mem_of_lookup hvalue)
      cases value with
      | array found =>
          cases hitems
          have hitem := List.sizeOf_lt_of_mem hchild
          simp only [Prod.mk.sizeOf_spec, array.sizeOf_spec, object.sizeOf_spec] at hentry ⊢
          omega
      | _ => cases hitems
  | _ => cases hvalue

end Json

/-! ## Loops that collect -/

section Collecting

variable {S γ κ : Type} {has : S → κ → Prop} {f : S → γ → Option S} {P : γ → Prop}
  {Q : γ → κ → Prop} {items : List γ}

/-- A loop comes to its end when every step does, and only then. -/
theorem exists_foldlM_iff (h : ∀ item ∈ items, ∀ acc, (∃ next, f acc item = some next) ↔ P item)
    (acc : S) : (∃ result, items.foldlM f acc = some result) ↔ ∀ item ∈ items, P item := by
  induction items generalizing acc with
  | nil => simp
  | cons item rest ih =>
      have hrest := ih fun other hother => h other (List.mem_cons_of_mem _ hother)
      have hfirst := h item List.mem_cons_self
      rw [List.forall_mem_cons]
      constructor
      · rintro ⟨result, hresult⟩
        rw [List.foldlM_cons, Option.bind_eq_bind] at hresult
        obtain ⟨next, hnext, hresult⟩ := Option.bind_eq_some_iff.mp hresult
        exact ⟨(hfirst acc).mp ⟨next, hnext⟩, (hrest next).mp ⟨result, hresult⟩⟩
      · rintro ⟨hitem, hitems⟩
        obtain ⟨next, hnext⟩ := (hfirst acc).mpr hitem
        obtain ⟨result, hresult⟩ := (hrest next).mpr hitems
        exact ⟨result, by rw [List.foldlM_cons, hnext]; exact hresult⟩

/-- What a loop has collected at its end is what its steps collect. -/
theorem foldlM_collects
    (h : ∀ item ∈ items, ∀ acc next, f acc item = some next →
      ∀ k, has next k ↔ has acc k ∨ Q item k)
    {acc result : S} (hresult : items.foldlM f acc = some result) (k : κ) :
    has result k ↔ has acc k ∨ ∃ item ∈ items, Q item k := by
  induction items generalizing acc with
  | nil =>
      cases hresult
      simp
  | cons item rest ih =>
      rw [List.foldlM_cons, Option.bind_eq_bind] at hresult
      obtain ⟨next, hnext, hresult⟩ := Option.bind_eq_some_iff.mp hresult
      rw [ih (fun other hother => h other (List.mem_cons_of_mem _ hother)) hresult,
        h item List.mem_cons_self acc next hnext k, List.exists_mem_cons_iff, or_assoc]

end Collecting
