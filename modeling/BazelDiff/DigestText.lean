/-
# The text of a digest

Comparing two hash files compares digests read from text. A digest keeps 64 lowercase
hexadecimal digits as the bytes they spell and any other text as it is. Both forms show the
text they were read from, so two digests are equal exactly when their texts are.
-/

import BazelDiff.HashFileJson

namespace BazelDiff

open Text

namespace Digest

/-- `From<[u8; 32]>`. -/
def ofBytes (bytes : Sha256Bytes) : Digest Sha256Bytes :=
  .sha256 bytes

end Digest

/-- A lowercase hexadecimal digit. -/
def IsLowercaseHex (c : Char) : Prop :=
  ('0' ≤ c ∧ c ≤ '9') ∨ ('a' ≤ c ∧ c ≤ 'f')

instance (c : Char) : Decidable (IsLowercaseHex c) :=
  inferInstanceAs (Decidable (('0' ≤ c ∧ c ≤ '9') ∨ ('a' ≤ c ∧ c ≤ 'f')))

/-- Exactly 64 lowercase hexadecimal digits. -/
def IsSha256Text (text : String) : Prop :=
  text.toList.length = 64 ∧ ∀ c ∈ text.toList, IsLowercaseHex c

/-! ## Digits -/

/-- The digits of the decoder's table are the digits the encoder writes. -/
theorem spell_of_values {high low h l : UInt8} (hhigh : lowercaseHexValue high = some h)
    (hlow : lowercaseHexValue low = some l) : Hex.spell (h <<< 4 ||| l) = [high, low] := by
  have hvalue : ∀ byte value, lowercaseHexValue byte = some value →
      value.toNat < 16 ∧ String.utf8EncodeChar (Hex.digit value.toNat) = [byte] := by
    have hall : ∀ n < 256, ∀ value ∈ lowercaseHexValue (UInt8.ofNat n),
        value.toNat < 16 ∧ String.utf8EncodeChar (Hex.digit value.toNat) = [UInt8.ofNat n] := by
      decide +kernel
    intro byte value h
    have hbyte := hall byte.toNat byte.toNat_lt value (by rw [UInt8.ofNat_toNat]; exact h)
    rwa [UInt8.ofNat_toNat] at hbyte
  obtain ⟨hltHigh, hspellHigh⟩ := hvalue high h hhigh
  obtain ⟨hltLow, hspellLow⟩ := hvalue low l hlow
  have hhalves : ∀ m < 16, ∀ n < 16, (UInt8.ofNat m <<< 4 ||| UInt8.ofNat n).toNat / 16 = m ∧
      (UInt8.ofNat m <<< 4 ||| UInt8.ofNat n).toNat % 16 = n := by
    decide +kernel
  obtain ⟨hdiv, hmod⟩ := hhalves h.toNat hltHigh l.toNat hltLow
  rw [UInt8.ofNat_toNat, UInt8.ofNat_toNat] at hdiv hmod
  rw [Hex.spell, hdiv, hmod, hspellHigh, hspellLow]
  rfl

theorem isLowercaseHex_digit : ∀ n < 16, IsLowercaseHex (Hex.digit n) := by
  decide

theorem exists_digit_of_isLowercaseHex {c : Char} (h : IsLowercaseHex c) :
    ∃ n < 16, Hex.digit n = c := by
  rcases h with ⟨hlow, hhigh⟩ | ⟨hlow, hhigh⟩
  · have hlow : 48 ≤ c.toNat := hlow
    have hhigh : c.toNat ≤ 57 := hhigh
    refine ⟨c.toNat - 48, by omega, ?_⟩
    rw [Hex.digit, if_pos (by omega), show 48 + (c.toNat - 48) = c.toNat by omega,
      Char.ofNat_toNat]
  · have hlow : 97 ≤ c.toNat := hlow
    have hhigh : c.toNat ≤ 102 := hhigh
    refine ⟨c.toNat - 87, by omega, ?_⟩
    rw [Hex.digit, if_neg (by omega), show 87 + (c.toNat - 87) = c.toNat by omega,
      Char.ofNat_toNat]

/-! ## Texts and bytes -/

/-- Decoded pairs spell the text they were decoded from. -/
theorem spell_decodePairs {text bytes : List UInt8} (heven : text.length % 2 = 0)
    (h : decodePairs text = some bytes) : bytes.flatMap Hex.spell = text := by
  induction text using List.twoStepInduction generalizing bytes with
  | nil =>
      cases h
      rfl
  | singleton byte => exact absurd heven Nat.one_ne_zero
  | cons_cons high low rest ih _ =>
      rw [decodePairs] at h
      obtain ⟨highValue, hhigh, h⟩ := Option.bind_eq_some_iff.mp h
      obtain ⟨lowValue, hlow, h⟩ := Option.bind_eq_some_iff.mp h
      obtain ⟨decoded, hdecoded, h⟩ := Option.bind_eq_some_iff.mp h
      cases h
      have hrest : rest.length % 2 = 0 := by
        rw [List.length_cons, List.length_cons] at heven
        omega
      rw [List.flatMap_cons, spell_of_values hhigh hlow, ih hrest hdecoded]
      rfl

/-- Decoded bytes are written back as the text. -/
theorem encode_decodeLowercaseHex {text : String} {bytes : Sha256Bytes}
    (h : decodeLowercaseHex text = some bytes) : Hex.encode bytes.1 = text := by
  rw [decodeLowercaseHex] at h
  split at h
  · cases h
  · next hlength =>
      rw [not_not] at hlength
      obtain ⟨decoded, hdecoded, h⟩ := Option.bind_eq_some_iff.mp h
      have hbytes : bytes.1 = decoded := by
        split at h
        · cases h
          rfl
        · cases h
      apply utf8_injective
      rw [Hex.utf8_encode, hbytes]
      apply spell_decodePairs _ hdecoded
      rw [hlength]

/-- An even number of digits spells bytes. -/
theorem exists_encode {chars : List Char} (heven : chars.length % 2 = 0)
    (hdigits : ∀ c ∈ chars, IsLowercaseHex c) :
    ∃ bytes, Hex.encode bytes = String.ofList chars ∧ 2 * bytes.length = chars.length := by
  induction chars using List.twoStepInduction with
  | nil => exact ⟨[], rfl, rfl⟩
  | singleton c => exact absurd heven Nat.one_ne_zero
  | cons_cons high low rest ih _ =>
      rw [List.length_cons, List.length_cons] at heven
      obtain ⟨bytes, htext, hlength⟩ := ih (by omega) fun c hc => hdigits c (by simp [hc])
      obtain ⟨h, hlt, rfl⟩ := exists_digit_of_isLowercaseHex (hdigits high (by simp))
      obtain ⟨l, hlt', rfl⟩ := exists_digit_of_isLowercaseHex (hdigits low (by simp))
      refine ⟨UInt8.ofNat (16 * h + l) :: bytes, ?_, ?_⟩
      · have hbyte : (UInt8.ofNat (16 * h + l)).toNat = 16 * h + l :=
          UInt8.toNat_ofNat_of_lt' (by show _ < 256; omega)
        have hdiv : (16 * h + l) / 16 = h := by omega
        have hmod : (16 * h + l) % 16 = l := by omega
        rw [← String.toList_inj, Hex.encode, String.toList_ofList] at htext
        rw [Hex.encode, List.flatMap_cons, hbyte, hdiv, hmod, htext, String.toList_ofList]
        rfl
      · rw [List.length_cons, List.length_cons, List.length_cons]
        omega

theorem isSha256Text_encode (bytes : Sha256Bytes) : IsSha256Text (Hex.encode bytes.1) := by
  rw [IsSha256Text, Hex.encode, String.toList_ofList]
  constructor
  · have hlength := bytes.2
    simp [hlength]
  · intro c hc
    obtain ⟨byte, -, hc⟩ := List.mem_flatMap.mp hc
    have hlt := byte.toNat_lt
    rcases List.mem_cons.mp hc with rfl | hc
    · exact isLowercaseHex_digit _ (by omega)
    · rw [List.mem_singleton.mp hc]
      exact isLowercaseHex_digit _ (by omega)

namespace Digest

/-- A digest shows the text it was read from. -/
theorem display_parse (text : String) : (parse text).display = text := by
  rw [parse]
  cases hdecode : decodeLowercaseHex text with
  | none => rfl
  | some bytes => exact encode_decodeLowercaseHex hdecode

/-- A text of 64 lowercase digits is kept as the bytes it spells. -/
theorem parse_of_isSha256Text {text : String} (h : IsSha256Text text) :
    ∃ bytes : Sha256Bytes, Hex.decode text = some bytes.1 ∧ parse text = ofBytes bytes := by
  obtain ⟨bytes, htext, hlength⟩ := exists_encode (by rw [h.1]) h.2
  rw [String.ofList_toList] at htext
  have h32 : bytes.length = 32 := by
    rw [h.1] at hlength
    omega
  refine ⟨⟨bytes, h32⟩, ?_, ?_⟩
  · rw [← htext, Hex.decode_encode]
  · rw [← htext]
    exact parse_display ⟨bytes, h32⟩

/-- The text of a digest is faithful: it is shown as it was read, two digests are equal exactly
when their texts are, and a digest holds bytes exactly when its text is 64 lowercase
hexadecimal digits, which spell them. -/
theorem digest_text_faithful :
    (∀ text, (parse text).display = text) ∧
      (∀ text text', parse text = parse text' ↔ text = text') ∧
      (∀ text, (∃ bytes, parse text = .sha256 bytes) ↔ IsSha256Text text) ∧
      ∀ text, IsSha256Text text →
        ∃ bytes : Sha256Bytes, Hex.decode text = some bytes.1 ∧ parse text = ofBytes bytes := by
  refine ⟨display_parse, ?_, ?_, fun text => parse_of_isSha256Text⟩
  · intro text text'
    constructor
    · intro h
      rw [← display_parse text, h, display_parse]
    · intro h
      rw [h]
  · intro text
    constructor
    · rintro ⟨bytes, hbytes⟩
      have htext := display_parse text
      rw [hbytes] at htext
      rw [← htext]
      exact isSha256Text_encode bytes
    · intro h
      obtain ⟨bytes, -, hparse⟩ := parse_of_isSha256Text h
      exact ⟨bytes, hparse⟩

end Digest

end BazelDiff
