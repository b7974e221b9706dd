/-
# Relating two computations that may fail

Two runs of the same code over different data are compared step by step: they
fail together with the same failure, or both succeed with related results. The
same rules restricted to one run say what every success satisfies. Both come
with the rules for sequencing and for loops.
-/

import BazelDiff.Lib.Pointwise
import Mathlib.Data.List.Perm.Basic

namespace Outcome

variable {ε α α' β β' γ : Type}

/-- Both fail alike, or both succeed with results related by `R`. -/
inductive Related (R : α → β → Prop) : Except ε α → Except ε β → Prop
  | error (e : ε) : Related R (.error e) (.error e)
  | ok {a : α} {b : β} (h : R a b) : Related R (.ok a) (.ok b)

namespace Related

theorem bind {R : α → β → Prop} {S : α' → β' → Prop}
    {x : Except ε α} {y : Except ε β} {f : α → Except ε α'} {g : β → Except ε β'}
    (hxy : Related R x y) (hfg : ∀ a b, R a b → Related S (f a) (g b)) :
    Related S (x >>= f) (y >>= g) := by
  cases hxy with
  | error e => exact .error e
  | ok h => exact hfg _ _ h

/-- What comes after may use what the first part of the left side gave. -/
theorem bind_left {R : α → β → Prop} {S : α' → β' → Prop}
    {x : Except ε α} {y : Except ε β} {f : α → Except ε α'} {g : β → Except ε β'}
    (hxy : Related R x y) (hfg : ∀ a b, x = .ok a → R a b → Related S (f a) (g b)) :
    Related S (x >>= f) (y >>= g) := by
  cases hxy with
  | error e => exact .error e
  | ok h => exact hfg _ _ rfl h

theorem map {R : α → β → Prop} {S : α' → β' → Prop} {x : Except ε α} {y : Except ε β}
    {f : α → α'} {g : β → β'} (hxy : Related R x y) (hfg : ∀ a b, R a b → S (f a) (g b)) :
    Related S (f <$> x) (g <$> y) := by
  cases hxy with
  | error e => exact .error e
  | ok h => exact .ok (hfg _ _ h)

theorem mono {R S : α → β → Prop} {x : Except ε α} {y : Except ε β}
    (hxy : Related R x y) (hRS : ∀ a b, R a b → S a b) : Related S x y := by
  cases hxy with
  | error e => exact .error e
  | ok h => exact .ok (hRS _ _ h)

theorem refl {R : α → α → Prop} (hR : ∀ a, R a a) (x : Except ε α) : Related R x x := by
  cases x with
  | error e => exact .error e
  | ok a => exact .ok (hR a)

theorem eq_of_eq {x y : Except ε α} (h : Related Eq x y) : x = y := by
  cases h with
  | error e => rfl
  | ok h => rw [h]

/-- A success on the left forces a related success on the right. -/
theorem ok_left {R : α → β → Prop} {x : Except ε α} {y : Except ε β} {a : α}
    (hxy : Related R x y) (hx : x = .ok a) : ∃ b, y = .ok b ∧ R a b := by
  subst hx
  cases hxy with
  | ok h => exact ⟨_, rfl, h⟩

/-- A failure on the left is the failure on the right. -/
theorem error_left {R : α → β → Prop} {x : Except ε α} {y : Except ε β} {e : ε}
    (hxy : Related R x y) (hx : x = .error e) : y = .error e := by
  subst hx
  cases hxy with
  | error => rfl

/-- A success on the right forces a related success on the left. -/
theorem ok_right {R : α → β → Prop} {x : Except ε α} {y : Except ε β} {b : β}
    (hxy : Related R x y) (hy : y = .ok b) : ∃ a, x = .ok a ∧ R a b := by
  subst hy
  cases hxy with
  | ok h => exact ⟨_, rfl, h⟩

/-- Two loops whose bodies preserve `R` end in related states. -/
theorem foldlM {R : α → β → Prop} {f : α → γ → Except ε α} {g : β → γ → Except ε β}
    {items : List γ} (hstep : ∀ item ∈ items, ∀ a b, R a b → Related R (f a item) (g b item))
    {a : α} {b : β} (hab : R a b) :
    Related R (items.foldlM f a) (items.foldlM g b) := by
  induction items generalizing a b with
  | nil => exact .ok hab
  | cons item rest ih =>
      rw [List.foldlM_cons, List.foldlM_cons]
      refine bind (hstep item List.mem_cons_self a b hab) fun a' b' h => ?_
      exact ih (fun next hnext => hstep next (List.mem_cons_of_mem _ hnext)) h

end Related

/-- Every success of `x` satisfies `Q`. -/
def Ensures (Q : α → Prop) (x : Except ε α) : Prop :=
  ∀ a, x = .ok a → Q a

namespace Ensures

theorem ok {Q : α → Prop} {a : α} (h : Q a) : Ensures Q (.ok a : Except ε α) := by
  rintro _ ⟨⟩
  exact h

theorem pure {Q : α → Prop} {a : α} (h : Q a) : Ensures Q (Pure.pure a : Except ε α) :=
  ok h

theorem error {Q : α → Prop} (e : ε) : Ensures Q (.error e : Except ε α) := by
  rintro _ ⟨⟩

theorem bind {P : α → Prop} {Q : β → Prop} {x : Except ε α} {f : α → Except ε β}
    (hx : Ensures P x) (hf : ∀ a, P a → Ensures Q (f a)) : Ensures Q (x >>= f) := by
  cases x with
  | error e => exact error e
  | ok a => exact hf a (hx a rfl)

theorem mono {P Q : α → Prop} {x : Except ε α} (hx : Ensures P x) (hPQ : ∀ a, P a → Q a) :
    Ensures Q x :=
  fun a ha => hPQ a (hx a ha)

end Ensures

/-- Every success satisfies `Q` and every failure satisfies `E`. -/
inductive Meets (E : ε → Prop) (Q : α → Prop) : Except ε α → Prop
  | error {e : ε} (h : E e) : Meets E Q (.error e)
  | ok {a : α} (h : Q a) : Meets E Q (.ok a)

namespace Meets

variable {E : ε → Prop}

theorem bind {P : α → Prop} {Q : β → Prop} {x : Except ε α} {f : α → Except ε β}
    (hx : Meets E P x) (hf : ∀ a, P a → Meets E Q (f a)) : Meets E Q (x >>= f) := by
  cases hx with
  | error h => exact .error h
  | ok h => exact hf _ h

theorem mono {P Q : α → Prop} {x : Except ε α} (hx : Meets E P x) (hPQ : ∀ a, P a → Q a) :
    Meets E Q x := by
  cases hx with
  | error h => exact .error h
  | ok h => exact .ok (hPQ _ h)

theorem foldlM {Q : α → Prop} {f : α → γ → Except ε α} {items : List γ}
    (hstep : ∀ item ∈ items, ∀ a, Q a → Meets E Q (f a item)) {a : α} (ha : Q a) :
    Meets E Q (items.foldlM f a) := by
  induction items generalizing a with
  | nil => exact .ok ha
  | cons item rest ih =>
      rw [List.foldlM_cons]
      apply bind (hstep item List.mem_cons_self a ha)
      intro a' h
      exact ih (fun next hnext => hstep next (List.mem_cons_of_mem _ hnext)) h

/-- A loop with an invariant that mentions the items already done. -/
theorem foldlM_done {Q : List γ → α → Prop} {f : α → γ → Except ε α} {items : List γ}
    (hstep : ∀ before item after, items = before ++ item :: after →
      ∀ a, Q before a → Meets E (Q (before ++ [item])) (f a item))
    {a : α} (ha : Q [] a) : Meets E (Q items) (items.foldlM f a) := by
  suffices h : ∀ before after, items = before ++ after → ∀ a, Q before a →
      Meets E (Q items) (after.foldlM f a) from h [] items rfl a ha
  intro before after
  induction after generalizing before with
  | nil =>
      intro hitems a hQ
      rw [hitems, List.append_nil]
      exact .ok hQ
  | cons item rest ih =>
      intro hitems a hQ
      rw [List.foldlM_cons]
      apply bind (hstep before item rest hitems a hQ)
      intro a' h
      exact ih (before ++ [item]) (by simpa using hitems) a' h

/-- A failure is excluded when it is no way to fail. -/
theorem ne_error_iff {x : Except ε α} {e : ε} :
    Meets (· ≠ e) (fun _ => True) x ↔ x ≠ .error e := by
  cases x with
  | error failure =>
      constructor
      · rintro (hne | _) heq
        exact hne (Except.error.inj heq)
      · intro hne
        exact .error fun heq => hne (congrArg _ heq)
  | ok a => exact ⟨fun _ => nofun, fun _ => .ok trivial⟩

/-- What cannot fail succeeds. -/
theorem exists_ok {Q : α → Prop} {x : Except ε α} (h : Meets E Q x) (hE : ∀ e, ¬ E e) :
    ∃ a, x = .ok a ∧ Q a := by
  cases h with
  | error h => exact absurd h (hE _)
  | ok h => exact ⟨_, rfl, h⟩

/-- What cannot succeed fails. -/
theorem exists_error {Q : α → Prop} {x : Except ε α} (h : Meets E Q x) (hQ : ∀ a, ¬ Q a) :
    ∃ e, x = .error e ∧ E e := by
  cases h with
  | error h => exact ⟨_, rfl, h⟩
  | ok h => exact absurd h (hQ _)

theorem ensures {Q : α → Prop} {x : Except ε α} (h : Meets E Q x) : Ensures Q x := by
  intro a ha
  subst ha
  cases h with
  | ok h => exact h

end Meets

namespace Ensures

theorem meets {Q : α → Prop} {x : Except ε α} (h : Ensures Q x) : Meets (fun _ => True) Q x := by
  cases x with
  | error e => exact .error trivial
  | ok a => exact .ok (h a rfl)

/-- A loop whose body preserves `Q` ends in a state that satisfies it. -/
theorem foldlM {Q : α → Prop} {f : α → γ → Except ε α} {items : List γ}
    (hstep : ∀ item ∈ items, ∀ a, Q a → Ensures Q (f a item)) {a : α} (ha : Q a) :
    Ensures Q (items.foldlM f a) :=
  (Meets.foldlM (fun item hitem a hQ => (hstep item hitem a hQ).meets) ha).ensures

theorem foldlM_done {Q : List γ → α → Prop} {f : α → γ → Except ε α} {items : List γ}
    (hstep : ∀ before item after, items = before ++ item :: after →
      ∀ a, Q before a → Ensures (Q (before ++ [item])) (f a item))
    {a : α} (ha : Q [] a) : Ensures (Q items) (items.foldlM f a) :=
  (Meets.foldlM_done (fun before item after hitems a hQ =>
    (hstep before item after hitems a hQ).meets) ha).ensures

end Ensures

/-- What each of two related computations ensures can be used along with the relation. -/
theorem Related.and_ensures {R : α → β → Prop} {P : α → Prop} {Q : β → Prop} {x : Except ε α}
    {y : Except ε β} (hxy : Related R x y) (hx : Ensures P x) (hy : Ensures Q y) :
    Related (fun a b => R a b ∧ P a ∧ Q b) x y := by
  cases hxy with
  | error e => exact .error e
  | ok h => exact .ok ⟨h, hx _ rfl, hy _ rfl⟩

theorem mapM_congr {f g : γ → Except ε α} {items : List γ} (h : ∀ item ∈ items, f item = g item) :
    items.mapM f = items.mapM g := by
  induction items with
  | nil => rfl
  | cons item rest ih =>
      rw [List.mapM_cons, List.mapM_cons, h item List.mem_cons_self,
        ih fun next hnext => h next (List.mem_cons_of_mem _ hnext)]

/-- What follows a computation matters only for its success. -/
theorem bind_congr_ok {x : Except ε α} {f g : α → Except ε β}
    (h : ∀ a, x = .ok a → f a = g a) : x >>= f = x >>= g := by
  cases x with
  | error e => rfl
  | ok a => exact h a rfl

/-- Two loops whose steps agree wherever the first one gets to. -/
theorem foldlM_congr_done {f g : α → γ → Except ε α} {items : List γ} {a : α}
    (h : ∀ before item after, items = before ++ item :: after → ∀ fed,
      before.foldlM f a = .ok fed → f fed item = g fed item) :
    items.foldlM f a = items.foldlM g a := by
  suffices hrest : ∀ before after fed, items = before ++ after → before.foldlM f a = .ok fed →
      after.foldlM f fed = after.foldlM g fed from hrest [] items a rfl rfl
  intro before after
  induction after generalizing before with
  | nil => exact fun _ _ _ => rfl
  | cons item rest ih =>
      intro fed hitems hfed
      rw [List.foldlM_cons, List.foldlM_cons, ← h before item rest hitems fed hfed]
      cases hnext : f fed item with
      | error e => rfl
      | ok next =>
          apply ih (before ++ [item]) next
          · rw [hitems, List.append_assoc]
            rfl
          · rw [List.foldlM_append, hfed]
            change List.foldlM f fed [item] = _
            rw [List.foldlM_cons, hnext]
            rfl

/-- A loop with an invariant that each step keeps from where the loop has come to. -/
theorem Ensures.foldlM_prefix {Q : α → Prop} {f : α → γ → Except ε α} {items : List γ} {a : α}
    (hstep : ∀ before item after, items = before ++ item :: after → ∀ fed,
      before.foldlM f a = .ok fed → Q fed → Ensures Q (f fed item)) (ha : Q a) :
    Ensures Q (items.foldlM f a) := by
  suffices h : Ensures (fun b => items.foldlM f a = .ok b ∧ Q b) (items.foldlM f a) from
    h.mono fun _ hb => hb.2
  refine Ensures.foldlM_done (Q := fun before b => before.foldlM f a = .ok b ∧ Q b) ?_ ⟨rfl, ha⟩
  intro before item after hitems fed hfed next hnext
  refine ⟨?_, hstep before item after hitems fed hfed.1 hfed.2 next hnext⟩
  rw [List.foldlM_append, hfed.1]
  change List.foldlM f fed [item] = _
  rw [List.foldlM_cons, hnext]
  rfl

/-- Two loops stay related if each step keeps them so from where the first loop has come to. -/
theorem Related.foldlM_prefix {R : α → β → Prop} {f : α → γ → Except ε α} {g : β → γ → Except ε β}
    {items : List γ} {a : α} {b : β}
    (hstep : ∀ before item after, items = before ++ item :: after → ∀ fed fed',
      before.foldlM f a = .ok fed → R fed fed' → Related R (f fed item) (g fed' item))
    (hab : R a b) : Related R (items.foldlM f a) (items.foldlM g b) := by
  suffices hrest : ∀ before after fed fed', items = before ++ after →
      before.foldlM f a = .ok fed → R fed fed' →
      Related R (after.foldlM f fed) (after.foldlM g fed') from hrest [] items a b rfl rfl hab
  intro before after
  induction after generalizing before with
  | nil => exact fun fed fed' _ _ hfed => .ok hfed
  | cons item rest ih =>
      intro fed fed' hitems hdone hfed
      rw [List.foldlM_cons, List.foldlM_cons]
      have hnext := hstep before item rest hitems fed fed' hdone hfed
      cases hf : f fed item with
      | error e =>
          rw [hnext.error_left hf]
          exact .error e
      | ok next =>
          obtain ⟨next', hg, hrel⟩ := hnext.ok_left hf
          rw [hg]
          apply ih (before ++ [item]) next next'
          · rw [hitems, List.append_assoc]
            rfl
          · rw [List.foldlM_append, hdone]
            change List.foldlM f fed [item] = _
            rw [List.foldlM_cons, hf]
            rfl
          · exact hrel

theorem ok_bind (a : α) (f : α → Except ε β) : (Except.ok a >>= f) = f a := rfl

/-- From a successful sequence, the success of its first part. -/
theorem bind_eq_ok {x : Except ε α} {f : α → Except ε β} {b : β} (h : x >>= f = .ok b) :
    ∃ a, x = .ok a ∧ f a = .ok b := by
  cases x with
  | error e => cases h
  | ok a => exact ⟨a, rfl, h⟩

theorem mapM_eq_ok_iff {f : γ → Except ε α} {items : List γ} {results : List α} :
    items.mapM f = .ok results ↔ List.Forall₂ (fun item a => f item = .ok a) items results := by
  induction items generalizing results with
  | nil =>
      rw [List.mapM_nil, List.forall₂_nil_left_iff]
      exact ⟨fun h => (Except.ok.inj h).symm, fun h => by rw [h]; rfl⟩
  | cons item rest ih =>
      rw [List.mapM_cons]
      constructor
      · intro h
        obtain ⟨a, ha, h⟩ := bind_eq_ok h
        obtain ⟨as, has, h⟩ := bind_eq_ok h
        cases h
        exact .cons ha (ih.mp has)
      · intro h
        cases h with
        | cons ha has =>
            rw [ha, ih.mpr has]
            rfl

/-- A loop succeeds when each of its steps does, and says of each result what its step says. -/
theorem mapM_ok {Q : γ → α → Prop} {f : γ → Except ε α} {items : List γ}
    (h : ∀ item ∈ items, ∃ a, f item = .ok a ∧ Q item a) :
    ∃ results, items.mapM f = .ok results ∧ List.Forall₂ Q items results := by
  induction items with
  | nil => exact ⟨[], rfl, .nil⟩
  | cons item rest ih =>
      obtain ⟨a, ha, hQ⟩ := h item List.mem_cons_self
      obtain ⟨results, hresults, hall⟩ := ih fun next hnext => h next (List.mem_cons_of_mem _ hnext)
      refine ⟨a :: results, ?_, .cons hQ hall⟩
      rw [List.mapM_cons, ha, hresults]
      rfl

theorem filterMapM_eq_mapM (f : γ → Except ε (Option α)) (items : List γ) :
    items.filterMapM f = (do let found ← items.mapM f; return found.filterMap id) := by
  induction items with
  | nil => rfl
  | cons item rest ih =>
      rw [List.filterMapM_cons, List.mapM_cons, ih]
      cases f item with
      | error e => rfl
      | ok found =>
          cases found <;> cases rest.mapM f <;> rfl

/-- A filtering loop succeeds when each of its steps does. -/
theorem filterMapM_ok {f : γ → Except ε (Option α)} {items : List γ}
    (h : ∀ item ∈ items, ∃ found, f item = .ok found) :
    ∃ results, items.filterMapM f = .ok results := by
  have hmap : ∃ found, items.mapM f = .ok found := by
    induction items with
    | nil => exact ⟨[], rfl⟩
    | cons item rest ih =>
        obtain ⟨first, hfirst⟩ := h item List.mem_cons_self
        obtain ⟨others, hothers⟩ := ih fun next hnext => h next (List.mem_cons_of_mem _ hnext)
        refine ⟨first :: others, ?_⟩
        rw [List.mapM_cons, hfirst, hothers]
        rfl
  obtain ⟨found, hfound⟩ := hmap
  exact ⟨found.filterMap id, by rw [filterMapM_eq_mapM, hfound]; rfl⟩

/-- What a successful filtering loop yields. -/
theorem mem_of_filterMapM {f : γ → Except ε (Option α)} {items : List γ} {results : List α}
    (h : items.filterMapM f = .ok results) :
    (∀ item ∈ items, ∃ found, f item = .ok found) ∧
      ∀ a, a ∈ results ↔ ∃ item ∈ items, f item = .ok (some a) := by
  rw [filterMapM_eq_mapM] at h
  obtain ⟨found, hfound, h⟩ := bind_eq_ok h
  cases h
  have hpairs := mapM_eq_ok_iff.mp hfound
  constructor
  · intro item hitem
    obtain ⟨a, -, ha⟩ := hpairs.exists_right hitem
    exact ⟨a, ha⟩
  · intro a
    rw [List.mem_filterMap]
    constructor
    · rintro ⟨_, hmem, rfl⟩
      exact hpairs.exists_left hmem
    · rintro ⟨item, hitem, ha⟩
      obtain ⟨found, hmem, hfound⟩ := hpairs.exists_right hitem
      rw [ha] at hfound
      cases hfound
      exact ⟨some a, hmem, rfl⟩
/-- A loop over a permutation of its items succeeds with a permutation of its results. -/
theorem mapM_perm {f : γ → Except ε α} {items items' : List γ} (hperm : items.Perm items')
    {results : List α} (h : items.mapM f = .ok results) :
    ∃ results', items'.mapM f = .ok results' ∧ results.Perm results' := by
  obtain ⟨results', hresults, hperm'⟩ :=
    List.perm_comp_forall₂ hperm.symm (mapM_eq_ok_iff.mp h)
  exact ⟨results', mapM_eq_ok_iff.mpr hresults, hperm'.symm⟩

/-- Both fail, or both succeed with related results. -/
inductive Alike (R : α → β → Prop) : Except ε α → Except ε β → Prop
  | error (e e' : ε) : Alike R (.error e) (.error e')
  | ok {a : α} {b : β} (h : R a b) : Alike R (.ok a) (.ok b)

theorem Related.alike {R : α → β → Prop} {x : Except ε α} {y : Except ε β} (h : Related R x y) :
    Alike R x y := by
  cases h with
  | error e => exact .error e e
  | ok h => exact .ok h

theorem Alike.bind {R : α → β → Prop} {S : α' → β' → Prop} {x : Except ε α} {y : Except ε β}
    {f : α → Except ε α'} {g : β → Except ε β'} (hxy : Alike R x y)
    (hfg : ∀ a b, R a b → Alike S (f a) (g b)) : Alike S (x >>= f) (y >>= g) := by
  cases hxy with
  | error e e' => exact .error e e'
  | ok h => exact hfg _ _ h

theorem Alike.and_ensures {R : α → β → Prop} {P : α → Prop} {x : Except ε α} {y : Except ε β}
    (hxy : Alike R x y) (hx : Ensures P x) : Alike (fun a b => R a b ∧ P a) x y := by
  cases hxy with
  | error e e' => exact .error e e'
  | ok h => exact .ok ⟨h, hx _ rfl⟩

/-- A loop over a permutation of its items fails alike. -/
theorem Alike.mapM_perm {f : γ → Except ε α} {items items' : List γ}
    (hperm : items.Perm items') : Alike List.Perm (items.mapM f) (items'.mapM f) := by
  cases h : items.mapM f with
  | ok results =>
      obtain ⟨results', h', hresults⟩ := Outcome.mapM_perm hperm h
      rw [h']
      exact .ok hresults
  | error e =>
      cases h' : items'.mapM f with
      | error e' => exact .error e e'
      | ok results' =>
          obtain ⟨results, hok, -⟩ := Outcome.mapM_perm hperm.symm h'
          rw [h] at hok
          cases hok

end Outcome
