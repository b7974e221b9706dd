/-
# Bytes read as text

A byte string that need not be UTF-8 is read as text one character at a time. A character
that breaks off, and a byte that starts no character, become the replacement character.
UTF-8 is read back as the text it encodes; of anything else, different byte strings can be
read as one text.
-/

import BazelDiff.Lib.Delimited

namespace Text

/-- A character whose first bytes are read. -/
structure Unfinished where
  /-- How many bytes it still needs. -/
  owed : Nat
  /-- The least and the greatest byte that can come next. -/
  low : Nat
  high : Nat
  /-- The bits read so far. -/
  value : Nat

/-- The character replacing what is not UTF-8. -/
def replacement : Char := Char.ofNat 0xFFFD

/-- What a first byte above the ASCII ones announces. The second byte is bounded so that no
character has two encodings, is a surrogate or lies above the last one. -/
def leadByte (byte : Nat) : Option Unfinished :=
  if 0xC2 ≤ byte ∧ byte ≤ 0xDF then
    some ⟨1, 0x80, 0xBF, byte % 0x20⟩
  else if 0xE0 ≤ byte ∧ byte ≤ 0xEF then
    some ⟨2, if byte = 0xE0 then 0xA0 else 0x80, if byte = 0xED then 0x9F else 0xBF, byte % 0x10⟩
  else if 0xF0 ≤ byte ∧ byte ≤ 0xF4 then
    some ⟨3, if byte = 0xF0 then 0x90 else 0x80, if byte = 0xF4 then 0x8F else 0xBF, byte % 0x08⟩
  else none

/-- Read a byte between characters. -/
def startByte (byte : Nat) : List Char × Option Unfinished :=
  if byte < 0x80 then ([Char.ofNat byte], none)
  else
    match leadByte byte with
    | some pending => ([], some pending)
    | none => ([replacement], none)

/-- Read a byte: a character in progress goes on, or breaks off and the byte starts anew. -/
def nextByte : Option Unfinished → Nat → List Char × Option Unfinished
  | none, byte => startByte byte
  | some pending, byte =>
      if pending.low ≤ byte ∧ byte ≤ pending.high then
        let value := pending.value * 0x40 + byte % 0x40
        if pending.owed = 1 then ([Char.ofNat value], none)
        else ([], some ⟨pending.owed - 1, 0x80, 0xBF, value⟩)
      else (replacement :: (startByte byte).1, (startByte byte).2)

def readLossy : Option Unfinished → List UInt8 → List Char
  | none, [] => []
  | some _, [] => [replacement]
  | pending, byte :: rest =>
      (nextByte pending byte.toNat).1 ++ readLossy (nextByte pending byte.toNat).2 rest

/-- Rust's `String::from_utf8_lossy`. -/
def lossyUtf8 (bytes : List UInt8) : String :=
  String.ofList (readLossy none bytes)

/-! ## UTF-8 is read back -/

theorem readLossy_cons (pending : Option Unfinished) (byte : UInt8) (rest : List UInt8) :
    readLossy pending (byte :: rest) =
      (nextByte pending byte.toNat).1 ++ readLossy (nextByte pending byte.toNat).2 rest := by
  cases pending <;> rfl

theorem toNat_ofNat_of_lt {n : Nat} (h : n < 256) : (UInt8.ofNat n).toNat = n := by
  rw [UInt8.toNat_ofNat']
  exact Nat.mod_eq_of_lt h

/-- A byte that a character in progress can go on with, but not end with. -/
theorem readLossy_tail {owed low high value n : Nat} (hlow : low ≤ n) (hhigh : n ≤ high)
    (hbyte : n < 256) (howed : owed ≠ 0) (rest : List UInt8) :
    readLossy (some ⟨owed + 1, low, high, value⟩) (UInt8.ofNat n :: rest) =
      readLossy (some ⟨owed, 0x80, 0xBF, value * 0x40 + n % 0x40⟩) rest := by
  rw [readLossy_cons, toNat_ofNat_of_lt hbyte, nextByte, if_pos ⟨hlow, hhigh⟩]
  simp [howed]

/-- The byte that ends a character in progress. -/
theorem readLossy_last {low high value n : Nat} (hlow : low ≤ n) (hhigh : n ≤ high)
    (hbyte : n < 256) (rest : List UInt8) :
    readLossy (some ⟨1, low, high, value⟩) (UInt8.ofNat n :: rest) =
      Char.ofNat (value * 0x40 + n % 0x40) :: readLossy none rest := by
  rw [readLossy_cons, toNat_ofNat_of_lt hbyte, nextByte, if_pos ⟨hlow, hhigh⟩]
  simp

theorem readLossy_lead {n : Nat} {pending : Unfinished} (hlead : leadByte n = some pending)
    (hbyte : n < 256) (hascii : 0x80 ≤ n) (rest : List UInt8) :
    readLossy none (UInt8.ofNat n :: rest) = readLossy (some pending) rest := by
  rw [readLossy_cons, toNat_ofNat_of_lt hbyte, nextByte, startByte, if_neg (by omega), hlead]
  rfl

/-- The encoding of a character is read as that character. -/
theorem readLossy_encode (c : Char) (rest : List UInt8) :
    readLossy none (String.utf8EncodeChar c ++ rest) = c :: readLossy none rest := by
  have hvalid : c.val.toNat < 0xd800 ∨ 0xdfff < c.val.toNat ∧ c.val.toNat < 0x110000 := c.valid
  have hself : ∀ n, n = c.val.toNat → Char.ofNat n = c := by
    rintro n rfl
    exact Char.ofNat_toNat c
  rw [String.utf8EncodeChar]
  generalize c.val.toNat = v at hvalid hself
  split
  · next h1 =>
      rw [List.singleton_append, readLossy_cons, toNat_ofNat_of_lt (by omega), nextByte, startByte,
        if_pos (by omega), hself v rfl]
      rfl
  · split
    · next h1 h2 =>
        have hlead : leadByte (v / 64 % 0x20 + 0xc0) =
            some ⟨1, 0x80, 0xBF, v / 64⟩ := by
          rw [leadByte, if_pos (by omega)]
          congr 2
          omega
        rw [List.cons_append, List.singleton_append, readLossy_lead hlead (by omega) (by omega),
          readLossy_last (by omega) (by omega) (by omega), hself _ (by omega)]
    · split
      · next h1 h2 h3 =>
          have hlead : leadByte (v / 4096 % 0x10 + 0xe0) = some ⟨2,
              if v / 4096 = 0 then 0xA0 else 0x80, if v / 4096 = 13 then 0x9F else 0xBF,
              v / 4096⟩ := by
            rw [leadByte, if_neg (by omega), if_pos (by omega)]
            congr 2
            · congr 1
              simp only [eq_iff_iff]
              omega
            · congr 1
              simp only [eq_iff_iff]
              omega
            · omega
          rw [List.cons_append, List.cons_append, List.singleton_append,
            readLossy_lead hlead (by omega) (by omega),
            readLossy_tail (by split <;> omega) (by split <;> omega) (by omega) one_ne_zero,
            readLossy_last (by omega) (by omega) (by omega), hself _ (by omega)]
      · next h1 h2 h3 =>
          have hlead : leadByte (v / 262144 % 0x08 + 0xf0) = some ⟨3,
              if v / 262144 = 0 then 0x90 else 0x80, if v / 262144 = 4 then 0x8F else 0xBF,
              v / 262144⟩ := by
            rw [leadByte, if_neg (by omega), if_neg (by omega), if_pos (by omega)]
            congr 2
            · congr 1
              simp only [eq_iff_iff]
              omega
            · congr 1
              simp only [eq_iff_iff]
              omega
            · omega
          rw [List.cons_append, List.cons_append, List.cons_append, List.singleton_append,
            readLossy_lead hlead (by omega) (by omega),
            readLossy_tail (by split <;> omega) (by split <;> omega) (by omega) two_ne_zero,
            readLossy_tail (by omega) (by omega) (by omega) one_ne_zero,
            readLossy_last (by omega) (by omega) (by omega), hself _ (by omega)]

/-- The encoding of a character shows where it ends. -/
theorem utf8EncodeChar_selfDelimiting :
    Delimited.SelfDelimiting String.utf8EncodeChar fun _ => True := by
  intro c c' rest rest' _ _ h
  have hread := congrArg (readLossy none) h
  rw [readLossy_encode, readLossy_encode] at hread
  obtain rfl := (List.cons.inj hread).1
  exact ⟨rfl, List.append_cancel_left h⟩

/-- The bytes that go on with a character and never start one. -/
def IsContinuation (byte : UInt8) : Prop :=
  0x80 ≤ byte.toNat ∧ byte.toNat < 0xC0

theorem utf8EncodeChar_lead (c : Char) : ∃ first tail, String.utf8EncodeChar c = first :: tail ∧
    ¬ IsContinuation first ∧ ∀ byte ∈ tail, IsContinuation byte := by
  have hlead : ∀ n, (n % 256 < 0x80 ∨ 0xC0 ≤ n % 256) → ¬ IsContinuation (UInt8.ofNat n) := by
    intro n hn h
    rw [IsContinuation, UInt8.toNat_ofNat'] at h
    omega
  have htail : ∀ n, 0x80 ≤ n → n < 0xC0 → IsContinuation (UInt8.ofNat n) := by
    intro n hlow hhigh
    rw [IsContinuation, toNat_ofNat_of_lt (by omega)]
    exact ⟨hlow, hhigh⟩
  rw [String.utf8EncodeChar]
  generalize c.val.toNat = v
  split
  · exact ⟨_, _, rfl, hlead _ (by omega), by simp⟩
  · split
    · refine ⟨_, _, rfl, hlead _ (by omega), ?_⟩
      simp only [List.mem_cons, List.not_mem_nil, or_false, forall_eq]
      exact htail _ (by omega) (by omega)
    · split
      · refine ⟨_, _, rfl, hlead _ (by omega), ?_⟩
        simp only [List.mem_cons, List.not_mem_nil, or_false, forall_eq_or_imp, forall_eq]
        exact ⟨htail _ (by omega) (by omega), htail _ (by omega) (by omega)⟩
      · refine ⟨_, _, rfl, hlead _ (by omega), ?_⟩
        simp only [List.mem_cons, List.not_mem_nil, or_false, forall_eq_or_imp, forall_eq]
        exact ⟨htail _ (by omega) (by omega), htail _ (by omega) (by omega),
          htail _ (by omega) (by omega)⟩

theorem lossyUtf8_append (s : String) (rest : List UInt8) :
    lossyUtf8 (utf8 s ++ rest) = s ++ lossyUtf8 rest := by
  have hchars : ∀ chars : List Char, readLossy none (chars.flatMap String.utf8EncodeChar ++ rest) =
      chars ++ readLossy none rest := by
    intro chars
    induction chars with
    | nil => rfl
    | cons c chars ih =>
        rw [List.flatMap_cons, List.append_assoc, readLossy_encode, ih, List.cons_append]
  rw [lossyUtf8, utf8, hchars, String.ofList_append, String.ofList_toList]
  rfl

@[simp]
theorem lossyUtf8_utf8 (s : String) : lossyUtf8 (utf8 s) = s := by
  have h := lossyUtf8_append s []
  rw [List.append_nil] at h
  rw [h]
  exact String.append_empty

example : lossyUtf8 [0xE2, 0x82, 0x41, 0xC0, 0xED, 0xA0] =
    String.ofList [replacement, 'A', replacement, replacement, replacement] := by
  decide +kernel

end Text
