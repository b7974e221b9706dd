/-
# Hash functions and self-delimiting digests

A program that hashes concatenations relies on two facts about its digests: the
bytes of a digest can be told from what follows them, and different inputs have
different digests. The first holds of every fixed-width digest and is part of
`HashFunction`; the second is the idealization a statement has to ask for, and
stands in statements as `Function.Injective digest`.

`Preimage` is a hash function for which the idealization is true: a digest is
its own input, written so that it delimits itself.
-/

import BazelDiff.Lib.Delimited

/-- A hash function on byte strings whose digests have a self-delimiting byte form. -/
class HashFunction (D : Type) where
  /-- The digest of a byte string. -/
  digest : List UInt8 → D
  /-- The bytes of a digest. -/
  bytes : D → List UInt8
  /-- The digest a byte string is the byte form of, if it is one. -/
  ofBytes : List UInt8 → Option D
  ofBytes_bytes : ∀ d, ofBytes (bytes d) = some d
  eq_of_append_eq : ∀ {d d' : D} {rest rest' : List UInt8},
    bytes d ++ rest = bytes d' ++ rest' → d = d'

namespace HashFunction

variable {D : Type} [HashFunction D]

theorem append_inj {d d' : D} {rest rest' : List UInt8}
    (h : bytes d ++ rest = bytes d' ++ rest') : d = d' ∧ rest = rest' := by
  obtain rfl := eq_of_append_eq h
  exact ⟨rfl, List.append_cancel_left h⟩

theorem append_eq_append_iff {d d' : D} {rest rest' : List UInt8} :
    bytes d ++ rest = bytes d' ++ rest' ↔ d = d' ∧ rest = rest' :=
  ⟨append_inj, fun ⟨hd, hrest⟩ => by rw [hd, hrest]⟩

theorem selfDelimiting_bytes :
    Delimited.SelfDelimiting (bytes : D → List UInt8) fun _ => True :=
  fun _ _ _ _ _ _ h => append_inj h

theorem bytes_injective : Function.Injective (bytes : D → List UInt8) := by
  intro d d' h
  have hlookup := congrArg (ofBytes (D := D)) h
  simpa [ofBytes_bytes] using hlookup

end HashFunction

namespace Hex

/-- The lowercase hexadecimal digit of a value below sixteen. -/
def digit (n : Nat) : Char :=
  if n < 10 then Char.ofNat (48 + n) else Char.ofNat (87 + n)

/-- The value of a hexadecimal digit of either case. -/
def value (c : Char) : Option Nat :=
  if '0' ≤ c ∧ c ≤ '9' then some (c.toNat - 48)
  else if 'a' ≤ c ∧ c ≤ 'f' then some (c.toNat - 87)
  else if 'A' ≤ c ∧ c ≤ 'F' then some (c.toNat - 55)
  else none

/-- Two lowercase digits a byte. -/
def encode (bytes : List UInt8) : String :=
  String.ofList (bytes.flatMap fun b => [digit (b.toNat / 16), digit (b.toNat % 16)])

/-- Read pairs of digits; an odd length or a character that is no digit fails. -/
def decodeList : List Char → Option (List UInt8)
  | [] => some []
  | [_] => none
  | high :: low :: rest => do
      let h ← value high
      let l ← value low
      let tail ← decodeList rest
      return UInt8.ofNat (16 * h + l) :: tail

/-- Read a hexadecimal string. -/
def decode (text : String) : Option (List UInt8) :=
  decodeList text.toList

theorem value_digit : ∀ n < 16, value (digit n) = some n := by
  decide

@[simp]
theorem decode_encode (bytes : List UInt8) : decode (encode bytes) = some bytes := by
  rw [decode, encode, String.toList_ofList]
  induction bytes with
  | nil => rfl
  | cons b rest ih =>
      have hhigh := value_digit (b.toNat / 16) (by have := b.toNat_lt; omega)
      have hlow := value_digit (b.toNat % 16) (by omega)
      have hbyte : 16 * (b.toNat / 16) + b.toNat % 16 = b.toNat := by omega
      have hof : UInt8.ofNat (16 * (b.toNat / 16) + b.toNat % 16) = b := by
        rw [hbyte, UInt8.ofNat_toNat]
      simp only [List.flatMap_cons, List.cons_append, List.nil_append, decodeList, hhigh, hlow,
        ih, hof, Option.pure_def, Option.bind_eq_bind, Option.bind_some]

theorem encode_injective : Function.Injective encode := by
  intro bytes bytes' h
  have hdecode := congrArg decode h
  simpa using hdecode

/-- The two bytes a byte is spelled with. -/
def spell (b : UInt8) : List UInt8 :=
  String.utf8EncodeChar (digit (b.toNat / 16)) ++ String.utf8EncodeChar (digit (b.toNat % 16))

theorem length_utf8EncodeChar_digit : ∀ n < 16, (String.utf8EncodeChar (digit n)).length = 1 := by
  decide

theorem length_spell (b : UInt8) : (spell b).length = 2 := by
  have hlt := b.toNat_lt
  rw [spell, List.length_append, length_utf8EncodeChar_digit _ (by omega),
    length_utf8EncodeChar_digit _ (by omega)]

theorem utf8_encode (bytes : List UInt8) : Text.utf8 (encode bytes) = bytes.flatMap spell := by
  rw [Text.utf8, encode, String.toList_ofList, List.flatMap_assoc]
  simp only [List.flatMap_cons, List.flatMap_nil, List.append_nil]
  rfl

theorem spell_injective : Function.Injective spell := by
  intro b c h
  have htext : ∀ b, Text.utf8 (encode [b]) = spell b := by
    intro b
    rw [utf8_encode, List.flatMap_singleton]
  have hencode := encode_injective (Text.utf8_injective ((htext b).trans (h.trans (htext c).symm)))
  exact List.singleton_inj.mp hencode

end Hex

/-- The transparent hash function: the digest of a byte string is that byte string. -/
structure Preimage where
  input : List UInt8
  deriving DecidableEq

namespace Preimage

/-- A byte that would read as the terminator or as an escape is escaped. -/
def escape : List UInt8 → List UInt8
  | [] => [255]
  | b :: rest => if b < 254 then b :: escape rest else 254 :: b :: escape rest

/-- Undo `escape`; fails on anything that is not exactly one escaped string. -/
def unescape : List UInt8 → Option (List UInt8)
  | [] => none
  | 255 :: rest => if rest.isEmpty then some [] else none
  | 254 :: b :: rest => (unescape rest).map (b :: ·)
  | b :: rest => (unescape rest).map (b :: ·)

theorem escape_cons_cases (b : UInt8) (rest : List UInt8) :
    (b < 254 ∧ escape (b :: rest) = b :: escape rest) ∨
      (¬ b < 254 ∧ escape (b :: rest) = 254 :: b :: escape rest) := by
  by_cases hb : b < 254
  · exact Or.inl ⟨hb, by simp [escape, hb]⟩
  · exact Or.inr ⟨hb, by simp [escape, hb]⟩

theorem unescape_escape (input : List UInt8) : unescape (escape input) = some input := by
  induction input with
  | nil => rfl
  | cons b rest ih =>
      rcases escape_cons_cases b rest with ⟨hb, heq⟩ | ⟨_, heq⟩
      · have h255 : b ≠ 255 := by rintro rfl; exact absurd hb (by decide)
        have h254 : b ≠ 254 := by rintro rfl; exact absurd hb (by decide)
        rw [heq, unescape]
        · simp [ih]
        · simpa using h255
        · intro _ _ h
          exact absurd h (by simpa using h254)
      · simp [heq, unescape, ih]

theorem escape_append_inj {input input' rest rest' : List UInt8}
    (h : escape input ++ rest = escape input' ++ rest') : input = input' := by
  induction input generalizing input' with
  | nil =>
      cases input' with
      | nil => rfl
      | cons b tail =>
          rcases escape_cons_cases b tail with ⟨hb, heq⟩ | ⟨_, heq⟩
          · rw [heq] at h
            obtain ⟨rfl, -⟩ : 255 = b ∧ _ := by simpa [escape] using h
            exact absurd hb (by decide)
          · rw [heq] at h
            simp [escape] at h
  | cons a tail ih =>
      cases input' with
      | nil =>
          rcases escape_cons_cases a tail with ⟨ha, heq⟩ | ⟨_, heq⟩
          · rw [heq] at h
            obtain ⟨rfl, -⟩ : a = 255 ∧ _ := by simpa [escape] using h
            exact absurd ha (by decide)
          · rw [heq] at h
            simp [escape] at h
      | cons b tail' =>
          rcases escape_cons_cases a tail with ⟨ha, heqa⟩ | ⟨ha, heqa⟩ <;>
            rcases escape_cons_cases b tail' with ⟨hb, heqb⟩ | ⟨hb, heqb⟩ <;>
            rw [heqa, heqb] at h <;>
            simp only [List.cons_append, List.cons.injEq] at h
          · rw [h.1, ih h.2]
          · rw [h.1] at ha
            exact absurd ha (by decide)
          · rw [← h.1] at hb
            exact absurd hb (by decide)
          · rw [h.2.1, ih h.2.2]

instance : HashFunction Preimage where
  digest input := ⟨input⟩
  bytes d := escape d.input
  ofBytes bytes := (unescape bytes).map Preimage.mk
  ofBytes_bytes d := by simp [unescape_escape]
  eq_of_append_eq h := congrArg Preimage.mk (escape_append_inj h)

/-- No two byte strings share a transparent digest. -/
theorem digest_injective :
    Function.Injective (HashFunction.digest : List UInt8 → Preimage) :=
  fun _ _ h => Preimage.mk.inj h

end Preimage
