/-
# Encodings that delimit themselves

A concatenation of encoded records can be read back when every record shows where it
ends. The notion is relative to a property of the values that are encoded: a text ends
at a terminator it does not contain, a field of known width at its width, and records
made of such fields inherit it.
-/

import BazelDiff.Lib.Text

namespace Delimited

variable {α β γ : Type}

/-- Values with the property are told apart by their encodings whatever follows. -/
def SelfDelimiting (encode : α → List β) (P : α → Prop) : Prop :=
  ∀ a a' rest rest', P a → P a' → encode a ++ rest = encode a' ++ rest' → a = a' ∧ rest = rest'

/-- Lists before a terminator they do not contain. -/
theorem append_terminator_inj {stop : β} {xs xs' rest rest' : List β} (hxs : stop ∉ xs)
    (hxs' : stop ∉ xs') (h : xs ++ stop :: rest = xs' ++ stop :: rest') :
    xs = xs' ∧ rest = rest' := by
  induction xs generalizing xs' with
  | nil =>
      cases xs' with
      | nil => exact ⟨rfl, (List.cons.inj h).2⟩
      | cons x xs' => exact absurd ((List.cons.inj h).1 ▸ List.mem_cons_self) hxs'
  | cons y xs ih =>
      cases xs' with
      | nil => exact absurd ((List.cons.inj h).1 ▸ List.mem_cons_self) hxs
      | cons x xs' =>
          rw [List.cons_append, List.cons_append, List.cons.injEq] at h
          obtain ⟨rfl, h⟩ := h
          obtain ⟨rfl, hrest⟩ := ih (fun hmem => hxs (List.mem_cons_of_mem _ hmem))
            (fun hmem => hxs' (List.mem_cons_of_mem _ hmem)) h
          exact ⟨rfl, hrest⟩

/-- An encoding that avoids a terminator delimits itself once it is terminated. -/
theorem SelfDelimiting.terminated {encode : α → List β} {P : α → Prop} {stop : β}
    (hinjective : Function.Injective encode) (hstop : ∀ a, P a → stop ∉ encode a) :
    SelfDelimiting (fun a => encode a ++ [stop]) P := by
  intro a a' rest rest' ha ha' h
  rw [List.append_assoc, List.append_assoc] at h
  obtain ⟨hencode, hrest⟩ := append_terminator_inj (hstop a ha) (hstop a' ha') h
  exact ⟨hinjective hencode, hrest⟩

/-- An encoding of one width delimits itself. -/
theorem SelfDelimiting.fixed {encode : α → List β} {P : α → Prop} {width : Nat}
    (hinjective : Function.Injective encode) (hwidth : ∀ a, P a → (encode a).length = width) :
    SelfDelimiting encode P := by
  intro a a' rest rest' ha ha' h
  obtain ⟨hencode, hrest⟩ := List.append_inj h ((hwidth a ha).trans (hwidth a' ha').symm)
  exact ⟨hinjective hencode, hrest⟩

/-- Two encodings one after the other. -/
theorem SelfDelimiting.append {first : α → List β} {second : γ → List β} {P : α → Prop}
    {Q : γ → Prop} (hfirst : SelfDelimiting first P) (hsecond : SelfDelimiting second Q) :
    SelfDelimiting (fun pair : α × γ => first pair.1 ++ second pair.2)
      (fun pair => P pair.1 ∧ Q pair.2) := by
  rintro ⟨a, c⟩ ⟨a', c'⟩ rest rest' ⟨ha, hc⟩ ⟨ha', hc'⟩ h
  simp only [List.append_assoc] at h
  obtain ⟨rfl, hlater⟩ := hfirst a a' _ _ ha ha' h
  obtain ⟨rfl, hrest⟩ := hsecond c c' _ _ hc hc' hlater
  exact ⟨rfl, hrest⟩

/-- Of two lists whose items are spelled in one width, with something after them, one starts with
the other. -/
theorem prefix_or_prefix_of_flatMap {code : β → List γ} {width : Nat}
    (hinjective : Function.Injective code) (hwidth : ∀ b, (code b).length = width)
    {xs ys : List β} {rest rest' : List γ}
    (h : xs.flatMap code ++ rest = ys.flatMap code ++ rest') : xs <+: ys ∨ ys <+: xs := by
  induction xs generalizing ys with
  | nil => exact Or.inl List.nil_prefix
  | cons x xs ih =>
      cases ys with
      | nil => exact Or.inr List.nil_prefix
      | cons y ys =>
          rw [List.flatMap_cons, List.flatMap_cons, List.append_assoc, List.append_assoc] at h
          obtain ⟨hcode, hrest⟩ := List.append_inj h ((hwidth x).trans (hwidth y).symm)
          obtain rfl := hinjective hcode
          exact (ih hrest).imp (fun hxs => List.cons_prefix_cons.mpr ⟨rfl, hxs⟩)
            fun hys => List.cons_prefix_cons.mpr ⟨rfl, hys⟩

/-- Spelling the items of an encoding in one width keeps it delimited. -/
theorem SelfDelimiting.spelled {encode : α → List β} {P : α → Prop} {code : β → List γ}
    {width : Nat} (hencode : SelfDelimiting encode P) (hinjective : Function.Injective code)
    (hwidth : ∀ b, (code b).length = width) :
    SelfDelimiting (fun a => (encode a).flatMap code) P := by
  have hshorter : ∀ a a', P a → P a' → encode a <+: encode a' → a = a' := by
    rintro a a' ha ha' ⟨tail, htail⟩
    exact (hencode a a' tail [] ha ha' (by rw [htail, List.append_nil])).1
  intro a a' rest rest' ha ha' h
  have hsame : a = a' := by
    rcases prefix_or_prefix_of_flatMap hinjective hwidth h with hle | hle
    · exact hshorter a a' ha ha' hle
    · exact (hshorter a' a ha' ha hle).symm
  subst hsame
  exact ⟨rfl, List.append_cancel_left h⟩

/-- Concatenated records determine the list of records. -/
theorem SelfDelimiting.flatMap_inj {encode : α → List β} {P : α → Prop}
    (h : SelfDelimiting encode P) (hne : ∀ a, P a → encode a ≠ []) {items items' : List α}
    (hitems : ∀ a ∈ items, P a) (hitems' : ∀ a ∈ items', P a)
    (heq : items.flatMap encode = items'.flatMap encode) : items = items' := by
  induction items generalizing items' with
  | nil =>
      cases items' with
      | nil => rfl
      | cons a' items' =>
          rw [List.flatMap_nil, List.flatMap_cons] at heq
          exact absurd (List.append_eq_nil_iff.mp heq.symm).1 (hne a' (hitems' a' List.mem_cons_self))
  | cons a items ih =>
      cases items' with
      | nil =>
          rw [List.flatMap_nil, List.flatMap_cons] at heq
          exact absurd (List.append_eq_nil_iff.mp heq).1 (hne a (hitems a List.mem_cons_self))
      | cons a' items' =>
          rw [List.flatMap_cons, List.flatMap_cons] at heq
          obtain ⟨rfl, hrest⟩ := h a a' _ _ (hitems a List.mem_cons_self)
            (hitems' a' List.mem_cons_self) heq
          rw [ih (fun b hb => hitems b (List.mem_cons_of_mem _ hb))
            (fun b hb => hitems' b (List.mem_cons_of_mem _ hb)) hrest]

end Delimited

namespace Text

/-! ## Single bytes in UTF-8 -/

/-- Only an ASCII character has an ASCII byte, its code. -/
theorem toNat_eq_of_ascii_mem {c : Char} {byte : UInt8} (hascii : byte.toNat < 0x80)
    (h : byte ∈ String.utf8EncodeChar c) : c.toNat = byte.toNat := by
  have hvalid : c.val.toNat < 0xd800 ∨ 0xdfff < c.val.toNat ∧ c.val.toNat < 0x110000 := c.valid
  have hbyte : ∀ n, byte = UInt8.ofNat n → n % 256 < 0x80 ∧ n % 256 = byte.toNat := by
    rintro n rfl
    rw [UInt8.toNat_ofNat'] at hascii ⊢
    exact ⟨hascii, rfl⟩
  show c.val.toNat = byte.toNat
  rw [String.utf8EncodeChar] at h
  split_ifs at h with h1 h2 h3
  · have := hbyte _ (List.mem_singleton.mp h)
    omega
  · simp only [List.mem_cons, List.not_mem_nil, or_false] at h
    rcases h with h | h
    · have := hbyte _ h
      omega
    · have := hbyte _ h
      omega
  · simp only [List.mem_cons, List.not_mem_nil, or_false] at h
    rcases h with h | h | h
    · have := hbyte _ h
      omega
    · have := hbyte _ h
      omega
    · have := hbyte _ h
      omega
  · simp only [List.mem_cons, List.not_mem_nil, or_false] at h
    rcases h with h | h | h | h
    · have := hbyte _ h
      omega
    · have := hbyte _ h
      omega
    · have := hbyte _ h
      omega
    · have := hbyte _ h
      omega

/-- An ASCII byte occurs in a text's encoding only where the character does. -/
theorem mem_of_ascii_mem_utf8 {s : String} {c : Char} (hc : c.toNat < 0x80)
    (h : UInt8.ofNat c.toNat ∈ utf8 s) : c ∈ s.toList := by
  obtain ⟨other, hother, hmem⟩ := List.mem_flatMap.mp h
  have hbyte : (UInt8.ofNat c.toNat).toNat = c.toNat := by
    rw [UInt8.toNat_ofNat']
    exact Nat.mod_eq_of_lt (by omega)
  have hcode := toNat_eq_of_ascii_mem (by omega) hmem
  rw [hbyte] at hcode
  obtain rfl : other = c := Char.ext (UInt32.toNat.inj hcode)
  exact hother

theorem zero_notMem_utf8 {s : String} (h : '\x00' ∉ s.toList) : 0 ∉ utf8 s :=
  fun hmem => h (@mem_of_ascii_mem_utf8 s '\x00' (by decide) hmem)

/-- ASCII texts have as many bytes as characters. -/
theorem length_utf8_of_ascii {s : String} (h : ∀ c ∈ s.toList, c.toNat ≤ 127) :
    (utf8 s).length = s.toList.length := by
  have hlist : ∀ chars : List Char, (∀ c ∈ chars, c.toNat ≤ 127) →
      (chars.flatMap String.utf8EncodeChar).length = chars.length := by
    intro chars hchars
    induction chars with
    | nil => rfl
    | cons c chars ih =>
        have hc : (String.utf8EncodeChar c).length = 1 := by
          have hascii : c.val.toNat ≤ 127 := hchars c List.mem_cons_self
          rw [String.utf8EncodeChar, if_pos hascii]
          rfl
        rw [List.flatMap_cons, List.length_append, hc,
          ih fun other hother => hchars other (List.mem_cons_of_mem _ hother), List.length_cons]
        exact Nat.add_comm _ _
  exact hlist s.toList h

/-! ## Ranges of texts -/

/-- Between a list and the list with one more item lie only lists that start with it. -/
theorem prefix_of_between {α : Type} [LinearOrder α] {front xs : List α} {last : α}
    (hle : ¬ xs < front) (hlt : xs < front ++ [last]) : front <+: xs := by
  induction front generalizing xs with
  | nil => exact List.nil_prefix
  | cons a front ih =>
      cases xs with
      | nil => exact absurd (List.nil_lt_cons a front) hle
      | cons x xs =>
          rw [List.cons_lt_cons_iff, not_or, not_and] at hle
          rw [List.cons_append, List.cons_lt_cons_iff] at hlt
          rcases hlt with hless | ⟨rfl, hlt⟩
          · exact absurd hless hle.1
          · exact List.cons_prefix_cons.mpr ⟨rfl, ih (hle.2 rfl) hlt⟩

/-- A list that starts with it, if what follows starts below the one more item. -/
theorem between_append {α : Type} [LinearOrder α] (front : List α) {rest : List α} {last : α}
    (hrest : ∀ x ∈ rest.head?, x < last) :
    ¬ front ++ rest < front ∧ front ++ rest < front ++ [last] := by
  induction front with
  | nil =>
      refine ⟨List.not_lt_nil _, ?_⟩
      cases rest with
      | nil => exact List.nil_lt_cons _ _
      | cons x rest => exact List.cons_lt_cons_iff.mpr (.inl (hrest x rfl))
  | cons a front ih =>
      rw [List.cons_append, List.cons_append, List.cons_lt_cons_iff, List.cons_lt_cons_iff]
      simpa using ih

end Text
