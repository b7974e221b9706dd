/-
# Streams of length-delimited messages

Bazel writes each message after its length, and the length is a varint. The stream is read
in batches that hold a bounded number of messages in one buffer, so that a query output of
gigabytes never lies in memory as a whole.
-/

import BazelDiff.Lib.Outcome
import BazelDiff.Lib.Varint
import BazelDiff.Options
import BazelDiff.Query.Cquery

namespace BazelDiff

open Varint Outcome

/-- The width of a `usize`. -/
def usizeBits : Nat := 64

/-- The loop of `readMessageLength`, with what the bytes before added up to. A payload is
shifted within 64 bits. -/
def readLengthFrom (value shift : Nat) : List UInt8 → Result (Option Nat × List UInt8)
  | [] =>
      if shift = 0 then return (none, [])
      else bail "truncated length prefix in Bazel query output"
  | byte :: rest =>
      let value := value ||| (byte &&& 0x7f).toNat <<< shift % 2 ^ 64
      if byte &&& 0x80 = 0 then
        if value < 2 ^ usizeBits then return (some value, rest)
        else bail ("length prefix " ++ toString value ++ " does not fit in usize")
      else if 64 ≤ shift + 7 then bail "length prefix in Bazel query output overflows a u64"
      else readLengthFrom value (shift + 7) rest

/-- Read a length prefix, and what is left of the stream; `none` at the end of the stream. -/
def readMessageLength (stream : List UInt8) : Result (Option Nat × List UInt8) :=
  readLengthFrom 0 0 stream

/-! ## Length prefixes -/

theorem and_top_eq_zero_iff (byte : UInt8) : byte &&& 0x80 = 0 ↔ byte.toNat < 128 := by
  have hall : ∀ n < 256, UInt8.ofNat n &&& 0x80 = 0 ↔ n < 128 := by decide +kernel
  have hbyte := hall byte.toNat byte.toNat_lt
  rwa [UInt8.ofNat_toNat] at hbyte

theorem toNat_and_payload (byte : UInt8) : (byte &&& 0x7f).toNat = byte.toNat % 128 := by
  rw [UInt8.toNat_and]
  exact Nat.and_two_pow_sub_one_eq_mod byte.toNat 7

/-- A payload is put above what the bytes before added up to; what leaves the word is lost. -/
theorem or_shiftLeft_eq {value payload shift : Nat} (hvalue : value < 2 ^ shift)
    (hshift : shift ≤ 64) :
    value ||| payload <<< shift % 2 ^ 64 = (value + 2 ^ shift * payload) % 2 ^ 64 := by
  obtain ⟨room, hroom⟩ := Nat.exists_eq_add_of_le hshift
  have hword : 2 ^ 64 = 2 ^ shift * 2 ^ room := by rw [hroom, Nat.pow_add]
  have hlt : payload % 2 ^ room < 2 ^ room := Nat.mod_lt _ (Nat.two_pow_pos _)
  have hsum : value + 2 ^ shift * (payload % 2 ^ room) < 2 ^ 64 := by
    calc value + 2 ^ shift * (payload % 2 ^ room)
        < 2 ^ shift * (payload % 2 ^ room + 1) := by rw [Nat.mul_succ]; omega
      _ ≤ 2 ^ 64 := by rw [hword]; exact Nat.mul_le_mul_left _ hlt
  calc value ||| payload <<< shift % 2 ^ 64
      = 2 ^ shift * (payload % 2 ^ room) ||| value := by
        rw [Nat.or_comm, Nat.shiftLeft_eq, Nat.mul_comm, hword, Nat.mul_mod_mul_left]
    _ = value + 2 ^ shift * (payload % 2 ^ room) := by
        rw [← Nat.two_pow_add_eq_or_of_lt hvalue, Nat.add_comm]
    _ = (value + 2 ^ shift * payload % 2 ^ 64) % 2 ^ 64 := by
        rw [hword, Nat.mul_mod_mul_left, ← hword, Nat.mod_eq_of_lt hsum]
    _ = (value + 2 ^ shift * payload) % 2 ^ 64 := Nat.add_mod_mod _ _ _

theorem mod_lt_usize (n : Nat) : n % 2 ^ 64 < 2 ^ usizeBits :=
  Nat.mod_lt n (Nat.two_pow_pos 64)

/-- Of a varint of at most ten bytes the loop returns the low 64 bits. -/
theorem readLengthFrom_varint {front : List UInt8} (hfront : IsVarint front) (rest : List UInt8)
    {total k : Nat} (hk : k ≤ 9) (htotal : total < 2 ^ (7 * k)) :
    readLengthFrom total (7 * k) (front ++ rest) =
      if k + front.length ≤ 10 then
        .ok (some ((total + 2 ^ (7 * k) * value front) % 2 ^ 64), rest)
      else bail "length prefix in Bazel query output overflows a u64" := by
  induction hfront generalizing total k with
  | last hlast =>
      rw [List.singleton_append, readLengthFrom, if_pos ((and_top_eq_zero_iff _).mpr hlast),
        toNat_and_payload, or_shiftLeft_eq htotal (by omega),
        if_pos (mod_lt_usize _), List.length_singleton, if_pos (by omega), value,
        value]
      rfl
  | more hmore hrest ih =>
      rename_i byte tail
      have htop : ¬ byte &&& 0x80 = 0 := fun h => by
        have := (and_top_eq_zero_iff byte).mp h
        omega
      rw [List.cons_append, readLengthFrom, if_neg htop, toNat_and_payload,
        or_shiftLeft_eq htotal (by omega), List.length_cons]
      rcases Nat.lt_or_ge k 9 with hlt | hge
      · have hnext : total + 2 ^ (7 * k) * (byte.toNat % 128) < 2 ^ (7 * (k + 1)) := by
          have hpayload : byte.toNat % 128 + 1 ≤ 2 ^ 7 := Nat.mod_lt _ (by decide)
          calc total + 2 ^ (7 * k) * (byte.toNat % 128)
              < 2 ^ (7 * k) * (byte.toNat % 128 + 1) := by rw [Nat.mul_succ]; omega
            _ ≤ 2 ^ (7 * k) * 2 ^ 7 := Nat.mul_le_mul_left _ hpayload
            _ = 2 ^ (7 * (k + 1)) := by rw [← Nat.pow_add, Nat.mul_succ]
        have hword : 2 ^ (7 * (k + 1)) ≤ 2 ^ 64 := Nat.pow_le_pow_right (by decide) (by omega)
        have hsum : total + 2 ^ (7 * k) * (byte.toNat % 128) +
            2 ^ (7 * (k + 1)) * value tail = total + 2 ^ (7 * k) * value (byte :: tail) := by
          have hgroup : 2 ^ 7 = 128 := rfl
          rw [value, Nat.mul_succ 7 k, Nat.pow_add, hgroup, Nat.mul_add, Nat.mul_assoc,
            Nat.add_assoc]
        rw [if_neg (by omega), Nat.mod_eq_of_lt (hnext.trans_le hword),
          ← Nat.mul_succ 7 k, ih hlt hnext, hsum, Nat.succ_add_eq_add_succ]
      · have hpos := List.length_pos_iff.mpr hrest.ne_nil
        rw [if_pos (by omega), if_neg (by omega)]

/-- A prefix that does not end before the stream does is an error. -/
theorem readLengthFrom_unfinished {stream : List UInt8}
    (h : ∀ byte ∈ stream, 128 ≤ byte.toNat) {total shift : Nat} (hne : stream ≠ [] ∨ shift ≠ 0) :
    ∃ failure, readLengthFrom total shift stream = .error failure := by
  induction stream generalizing total shift with
  | nil =>
      rw [readLengthFrom, if_neg (hne.resolve_left fun h => h rfl)]
      exact ⟨_, rfl⟩
  | cons byte rest ih =>
      obtain ⟨hbyte, hrest⟩ := List.forall_mem_cons.mp h
      have htop : ¬ byte &&& 0x80 = 0 := fun h => by
        have := (and_top_eq_zero_iff byte).mp h
        omega
      rw [readLengthFrom, if_neg htop]
      split
      · exact ⟨_, rfl⟩
      · exact ih hrest (Or.inr (Nat.succ_ne_zero _))

theorem readMessageLength_varint {front : List UInt8} (hfront : IsVarint front)
    (rest : List UInt8) :
    readMessageLength (front ++ rest) =
      if front.length ≤ 10 then .ok (some (value front % 2 ^ 64), rest)
      else bail "length prefix in Bazel query output overflows a u64" := by
  have hread := @readLengthFrom_varint front hfront rest 0 0 (Nat.zero_le _) Nat.one_pos
  rw [Nat.zero_add, Nat.zero_add, Nat.mul_zero, Nat.pow_zero, Nat.one_mul] at hread
  exact hread

/-- The stream starts with a varint of this value. -/
def StartsWith (stream : List UInt8) (n : Nat) : Prop :=
  ∃ front rest, stream = front ++ rest ∧ IsVarint front ∧ value front = n

/-- What is read is the value of the varint, and a value above 64 bits is an error. -/
structure ReadsExactly (stream : List UInt8) : Prop where
  exact : ∀ n rest, readMessageLength stream = .ok (some n, rest) → StartsWith stream n
  rejects : ∀ n, StartsWith stream n → 2 ^ 64 ≤ n →
    ∃ failure, readMessageLength stream = .error failure

/-- Nine bytes that continue, and a last one with more than the one bit there is room for. -/
def LosesBits (stream : List UInt8) : Prop :=
  ∃ front last rest, stream = front ++ last :: rest ∧ front.length = 9 ∧
    (∀ byte ∈ front, 128 ≤ byte.toNat) ∧ 1 < last.toNat ∧ last.toNat < 128

/-- Ten bytes with more than the one bit there is room for spell more than 64 bits. -/
theorem two_pow_le_value {front : List UInt8} {last : UInt8} (hlength : front.length = 9)
    (hlarge : 1 < last.toNat) (hlast : last.toNat < 128) : 2 ^ 64 ≤ value (front ++ [last]) := by
  rw [value_append, hlength, value, value]
  omega

/-- Any other varint of at most ten bytes spells a number of 64 bits. -/
theorem value_lt_of_not_losesBits {front rest : List UInt8} (hfront : IsVarint front)
    (hlength : front.length ≤ 10) (hkeeps : ¬ LosesBits (front ++ rest)) :
    value front < 2 ^ 64 := by
  obtain ⟨before, last, rfl, hbefore, hlast⟩ := hfront.eq_append_last
  rw [List.length_append, List.length_singleton] at hlength
  rcases Nat.lt_or_ge before.length 9 with hshort | hlong
  · have hvalue := value_lt (before ++ [last])
    rw [List.length_append, List.length_singleton] at hvalue
    have hpow : 128 ^ (before.length + 1) ≤ 128 ^ 9 := Nat.pow_le_pow_right (by decide) hshort
    omega
  · have hnine : before.length = 9 := by omega
    have hbit : last.toNat ≤ 1 := by
      by_contra hlarge
      exact hkeeps ⟨before, last, rest, by simp, hnine, hbefore, by omega, hlast⟩
    have hvalue := value_lt before
    rw [hnine] at hvalue
    rw [value_append, hnine, value, value]
    omega

/-- **A length prefix is read as the number it spells exactly when it does not lose bits in its
tenth byte.** -/
theorem reads_length_exactly_iff (stream : List UInt8) :
    ReadsExactly stream ↔ ¬ LosesBits stream := by
  constructor
  · rintro hreads ⟨front, last, rest, rfl, hlength, hfront, hlarge, hlast⟩
    have hvarint := IsVarint.append_last hfront hlast
    have hstream : front ++ last :: rest = (front ++ [last]) ++ rest := by simp
    obtain ⟨failure, hfailure⟩ := hreads.rejects _ ⟨front ++ [last], rest, hstream, hvarint, rfl⟩
      (two_pow_le_value hlength hlarge hlast)
    rw [hstream, readMessageLength_varint hvarint, if_pos (by simp [hlength])] at hfailure
    cases hfailure
  · intro hkeeps
    rcases starts_or_unfinished stream with ⟨front, rest, rfl, hfront⟩ | hunfinished
    · have hread := readMessageLength_varint hfront rest
      by_cases hlength : front.length ≤ 10
      · have hvalue := value_lt_of_not_losesBits hfront hlength hkeeps
        rw [if_pos hlength, Nat.mod_eq_of_lt hvalue] at hread
        constructor
        · intro n after h
          obtain ⟨rfl, -⟩ : value front = n ∧ rest = after := by simpa using hread.symm.trans h
          exact ⟨front, rest, rfl, hfront, rfl⟩
        · rintro n ⟨front', rest', heq, hfront', rfl⟩ hlarge
          obtain ⟨rfl, -⟩ := hfront.append_inj hfront' heq
          omega
      · rw [if_neg hlength] at hread
        constructor
        · intro n after h
          rw [hread] at h
          cases h
        · exact fun _ _ _ => ⟨_, hread⟩
    · rcases List.eq_nil_or_concat stream with rfl | hne
      · constructor
        · intro n after h
          cases h
        · rintro n ⟨front, rest, heq, hfront, -⟩ -
          exact absurd (List.append_eq_nil_iff.mp heq.symm).1 hfront.ne_nil
      · have hstream : stream ≠ [] := by
          obtain ⟨front, last, rfl⟩ := hne
          simp
        obtain ⟨failure, hfailure⟩ := readLengthFrom_unfinished hunfinished (Or.inl hstream)
        constructor
        · intro n after h
          cases hfailure.symm.trans h
        · exact fun _ _ _ => ⟨failure, hfailure⟩

/-- Ten bytes that spell `2 ^ 64` are read as the length 0. -/
theorem reads_length_tenth_byte :
    ¬ ReadsExactly [0x80, 0x80, 0x80, 0x80, 0x80, 0x80, 0x80, 0x80, 0x80, 0x02] := by
  intro h
  have hread : readMessageLength
      [0x80, 0x80, 0x80, 0x80, 0x80, 0x80, 0x80, 0x80, 0x80, 0x02] = .ok (some 0, []) := by
    rfl
  have hvarint : IsVarint [0x80, 0x80, 0x80, 0x80, 0x80, 0x80, 0x80, 0x80, 0x80, 0x02] :=
    @IsVarint.append_last [0x80, 0x80, 0x80, 0x80, 0x80, 0x80, 0x80, 0x80, 0x80] 0x02
      (by decide +kernel) (by decide)
  obtain ⟨failure, hfailure⟩ := h.rejects (2 ^ 64) ⟨_, [], rfl, hvarint, by decide⟩ (Nat.le_refl _)
  cases hread.symm.trans hfailure

/-! ## Batches -/

/-- Upper bounds on one batch. -/
def decodeBatchMessages : Nat := 8192

def decodeBatchBytes : Nat := 32 * 1024 * 1024

/-- Encoded messages in one buffer, each by where it starts and ends. -/
structure RawBatch where
  buffer : List UInt8
  bounds : List (Nat × Nat)
  within : ∀ bound ∈ bounds, bound.1 ≤ bound.2 ∧ bound.2 ≤ buffer.length

namespace RawBatch

def empty : RawBatch where
  buffer := []
  bounds := []
  within := fun _ hmem => absurd hmem List.not_mem_nil

/-- The batch with one more message at the end of its buffer. -/
def push (batch : RawBatch) (message : List UInt8) : RawBatch where
  buffer := batch.buffer ++ message
  bounds := batch.bounds ++ [(batch.buffer.length, (batch.buffer ++ message).length)]
  within := by
    intro bound hbound
    rw [List.length_append]
    rcases List.mem_append.mp hbound with hold | hnew
    · have hwithin := batch.within bound hold
      exact ⟨hwithin.1, Nat.le_add_right_of_le hwithin.2⟩
    · rw [List.mem_singleton.mp hnew, List.length_append]
      exact ⟨Nat.le_add_right _ _, Nat.le_refl _⟩

/-- The messages of a batch. -/
def slices (batch : RawBatch) : List (List UInt8) :=
  batch.bounds.map fun bound => (batch.buffer.take bound.2).drop bound.1

/-- A message that is added leaves those before it alone. -/
theorem slices_push (batch : RawBatch) (message : List UInt8) :
    (batch.push message).slices = batch.slices ++ [message] := by
  rw [slices, push, List.map_append, List.map_singleton, List.take_length, List.drop_left]
  congr 1
  apply List.map_congr_left
  intro bound hbound
  rw [List.take_append_of_le_length (batch.within bound hbound).2]

theorem length_bounds_push (batch : RawBatch) (message : List UInt8) :
    (batch.push message).bounds.length = batch.bounds.length + 1 := by
  rw [push, List.length_append, List.length_singleton]

theorem isEmpty_bounds (batch : RawBatch) : batch.bounds.isEmpty = batch.slices.isEmpty := by
  rw [slices, List.isEmpty_map]

end RawBatch

/-- Fill a batch that has room for so many more messages. -/
def fillBatch : Nat → List UInt8 → RawBatch → Result (RawBatch × List UInt8)
  | 0, stream, batch => return (batch, stream)
  | room + 1, stream, batch =>
      if batch.buffer.length < decodeBatchBytes then do
        let (length, rest) ← readMessageLength stream
        match length with
        | none => return (batch, rest)
        | some length =>
            let message := rest.take length
            if message.length = length then
              fillBatch room (rest.drop length) (batch.push message)
            else bail "truncated message in Bazel query output"
      else return (batch, stream)

/-- Read one batch: whether it holds a message, the batch, and what is left of the stream. -/
def readRawBatch (stream : List UInt8) : Result (Bool × RawBatch × List UInt8) := do
  let (batch, rest) ← fillBatch decodeBatchMessages stream .empty
  return (!batch.bounds.isEmpty, batch, rest)

/-- A length that is read has at least one byte. -/
theorem readLengthFrom_shortens {stream rest : List UInt8} {total shift : Nat}
    {length : Option Nat} (h : readLengthFrom total shift stream = .ok (length, rest)) :
    rest.length + (if length.isSome then 1 else 0) ≤ stream.length := by
  induction stream generalizing total shift with
  | nil =>
      rw [readLengthFrom] at h
      split at h
      · cases h
        exact Nat.le_refl _
      · cases h
  | cons byte tail ih =>
      rw [readLengthFrom] at h
      split_ifs at h with htop hword hshift
      · cases h
        exact Nat.le_refl _
      · cases h
      · cases h
      · exact (ih h).trans (Nat.le_succ _)

theorem fillBatch_shortens {room : Nat} {stream rest : List UInt8} {batch filled : RawBatch}
    (h : fillBatch room stream batch = .ok (filled, rest)) :
    rest.length + filled.bounds.length ≤ stream.length + batch.bounds.length := by
  induction room generalizing stream batch with
  | zero =>
      cases h
      exact Nat.le_refl _
  | succ room ih =>
      rw [fillBatch] at h
      split at h
      · obtain ⟨⟨length, after⟩, hlength, h⟩ := bind_eq_ok h
        have hshort := readLengthFrom_shortens hlength
        cases length with
        | none =>
            cases h
            exact Nat.add_le_add_right hshort _
        | some length =>
            dsimp only at h
            split at h
            · have hrest := ih h
              rw [RawBatch.length_bounds_push, List.length_drop] at hrest
              simp only [Option.isSome_some, if_true] at hshort
              omega
            · cases h
      · cases h
        exact Nat.le_refl _

/-- A batch that holds a message shortens the stream. -/
theorem readRawBatch_shortens {stream rest : List UInt8} {batch : RawBatch}
    (h : readRawBatch stream = .ok (true, batch, rest)) : rest.length < stream.length := by
  obtain ⟨⟨filled, after⟩, hfill, h⟩ := bind_eq_ok h
  have hle := fillBatch_shortens hfill
  obtain ⟨hholds, hsame⟩ := Prod.mk.inj (Except.ok.inj h)
  obtain ⟨rfl, rfl⟩ := Prod.mk.inj hsame
  have hpos : 0 < filled.bounds.length := by
    rw [List.length_pos_iff]
    rintro hnil
    rw [hnil] at hholds
    cases hholds
  have hempty : RawBatch.empty.bounds.length = 0 := rfl
  omega

/-- Read batch after batch to the end of the stream, and hand each one on. -/
def drainBatches {α : Type} (consume : RawBatch → Result α) (stream : List UInt8) :
    Result (List α) :=
  match _hread : readRawBatch stream with
  | .error failure => .error failure
  | .ok (false, _, _) => return []
  | .ok (true, batch, rest) => do
      let result ← consume batch
      let results ← drainBatches consume rest
      return result :: results
termination_by stream.length
decreasing_by exact readRawBatch_shortens _hread

section Draining

variable {α : Type} {consume : RawBatch → Result α} {stream : List UInt8}

theorem drainBatches_error {failure : Failure} (h : readRawBatch stream = .error failure) :
    drainBatches consume stream = .error failure := by
  rw [drainBatches.eq_def]
  split <;> simp_all

theorem drainBatches_done {batch : RawBatch} {rest : List UInt8}
    (h : readRawBatch stream = .ok (false, batch, rest)) :
    drainBatches consume stream = .ok [] := by
  rw [drainBatches.eq_def]
  split <;> simp_all
  rfl

theorem drainBatches_more {batch : RawBatch} {rest : List UInt8}
    (h : readRawBatch stream = .ok (true, batch, rest)) :
    drainBatches consume stream = (do
      let result ← consume batch
      let results ← drainBatches consume rest
      return result :: results) := by
  rw [drainBatches.eq_def]
  split <;> simp_all

end Draining

/-- All messages of a stream, batch by batch. -/
def readBatches (stream : List UInt8) : Result (List (List (List UInt8))) :=
  drainBatches (fun batch => .ok batch.slices) stream

/-! ## Framing -/

/-- A message of a length that fits in a `usize`. -/
structure RawMessage where
  bytes : List UInt8
  fits : bytes.length < 2 ^ usizeBits

/-- A message after its length. -/
def encodeMessage (message : RawMessage) : List UInt8 :=
  Varint.encode message.bytes.length ++ message.bytes

def encodeMessages (messages : List RawMessage) : List UInt8 :=
  messages.flatMap encodeMessage

/-- The beginning of a message that the stream ends inside of. -/
def CutMessage (tail : List UInt8) : Prop :=
  tail ≠ [] ∧ ∃ message, tail <+: encodeMessage message ∧ tail ≠ encodeMessage message

theorem length_encode_le_ten {n : Nat} (h : n < 2 ^ usizeBits) : (Varint.encode n).length ≤ 10 :=
  length_encode_le (h.trans_le (by decide : 2 ^ usizeBits ≤ 128 ^ 10))

theorem readMessageLength_encode {n : Nat} (h : n < 2 ^ usizeBits) (rest : List UInt8) :
    readMessageLength (Varint.encode n ++ rest) = .ok (some n, rest) := by
  have hmod : n % 2 ^ 64 = n := Nat.mod_eq_of_lt h
  rw [readMessageLength_varint (isVarint_encode n), if_pos (length_encode_le_ten h), value_encode,
    hmod]

/-- A message that is cut off has no whole length, or not as many bytes as its length says. -/
theorem readMessageLength_cut {tail : List UInt8} (h : CutMessage tail) :
    (∃ failure, readMessageLength tail = .error failure) ∨
      ∃ length rest, readMessageLength tail = .ok (some length, rest) ∧ rest.length < length := by
  obtain ⟨hne, message, hstart, hcut⟩ := h
  by_cases hlength : Varint.encode message.bytes.length <+: tail
  · obtain ⟨rest, rfl⟩ := hlength
    refine Or.inr ⟨_, rest, readMessageLength_encode message.fits rest, ?_⟩
    rw [encodeMessage, List.prefix_append_right_inj] at hstart
    apply lt_of_le_of_ne hstart.length_le
    intro heq
    exact hcut (by rw [hstart.eq_of_length heq, encodeMessage])
  · have hinside : tail <+: Varint.encode message.bytes.length :=
      (List.prefix_or_prefix_of_prefix hstart (List.prefix_append _ _)).resolve_right hlength
    have hunfinished := (isVarint_encode message.bytes.length).unfinished hinside
      fun heq => hlength (heq ▸ List.prefix_rfl)
    exact Or.inl (readLengthFrom_unfinished hunfinished (Or.inl hne))

/-- A stream that ends inside of a message holds the messages before it. -/
theorem exists_cut {messages : List RawMessage} {cut : List UInt8}
    (h : cut <+: encodeMessages messages) :
    ∃ k tail, cut = encodeMessages (messages.take k) ++ tail ∧ (tail = [] ∨ CutMessage tail) := by
  induction messages generalizing cut with
  | nil => exact ⟨0, [], List.prefix_nil.mp h, Or.inl rfl⟩
  | cons message rest ih =>
      rw [encodeMessages, List.flatMap_cons] at h
      by_cases hwhole : encodeMessage message <+: cut
      · obtain ⟨after, rfl⟩ := hwhole
        obtain ⟨k, tail, rfl, htail⟩ := ih ((List.prefix_append_right_inj _).mp h)
        exact ⟨k + 1, tail, by simp [encodeMessages], htail⟩
      · have hinside : cut <+: encodeMessage message :=
          (List.prefix_or_prefix_of_prefix h (List.prefix_append _ _)).resolve_right hwhole
        refine ⟨0, cut, rfl, ?_⟩
        by_cases hne : cut = []
        · exact Or.inl hne
        · exact Or.inr ⟨hne, message, hinside, fun heq => hwhole (heq ▸ List.prefix_rfl)⟩

/-- Filling a batch fails only in a stream that ends inside of a message. -/
theorem fillBatch_meets {tail : List UInt8} (htail : tail = [] ∨ CutMessage tail) (room : Nat)
    (messages : List RawMessage) (batch : RawBatch) :
    Meets (fun _ => tail ≠ [])
      (fun result => ∃ done left, messages = done ++ left ∧
        result.1.slices = batch.slices ++ done.map (·.bytes) ∧
        result.2 = encodeMessages left ++ tail ∧
        (room ≠ 0 → batch.buffer.length < decodeBatchBytes → done = [] →
          messages = [] ∧ tail = []))
      (fillBatch room (encodeMessages messages ++ tail) batch) := by
  induction room generalizing messages batch with
  | zero => exact .ok ⟨[], messages, rfl, by simp, rfl, fun h => absurd rfl h⟩
  | succ room ih =>
      rw [fillBatch]
      by_cases hbytes : batch.buffer.length < decodeBatchBytes
      · rw [if_pos hbytes]
        cases messages with
        | nil =>
            rcases htail with rfl | hcut
            · exact .ok ⟨[], [], rfl, by simp, rfl, fun _ _ _ => ⟨rfl, rfl⟩⟩
            · rw [encodeMessages, List.flatMap_nil, List.nil_append]
              rcases readMessageLength_cut hcut with ⟨failure, hread⟩ | ⟨length, rest, hread, hshort⟩
              · rw [hread]
                exact .error hcut.1
              · rw [hread, ok_bind]
                dsimp only
                rw [List.take_of_length_le hshort.le, if_neg hshort.ne]
                exact .error hcut.1
        | cons message messages =>
            have hstream : encodeMessages (message :: messages) ++ tail =
                Varint.encode message.bytes.length ++
                  (message.bytes ++ (encodeMessages messages ++ tail)) := by
              simp [encodeMessages, encodeMessage]
            rw [hstream, readMessageLength_encode message.fits, ok_bind]
            dsimp only
            rw [List.take_left, if_pos rfl, List.drop_left]
            apply (ih messages (batch.push message.bytes)).mono
            rintro result ⟨done, left, rfl, hslices, hrest, -⟩
            refine ⟨message :: done, left, rfl, ?_, hrest, fun _ _ h => nomatch h⟩
            rw [hslices, RawBatch.slices_push, List.append_assoc]
            rfl
      · rw [if_neg hbytes]
        exact .ok ⟨[], messages, rfl, by simp, rfl, fun _ h => absurd h hbytes⟩

/-- What one call does to a stream of messages that may end inside of one: it hands out the next
messages, and none only at the end. -/
theorem readRawBatch_meets {tail : List UInt8} (htail : tail = [] ∨ CutMessage tail)
    (messages : List RawMessage) :
    Meets (fun _ => tail ≠ [])
      (fun result => ∃ done left, messages = done ++ left ∧
        result.2.1.slices = done.map (·.bytes) ∧ result.2.2 = encodeMessages left ++ tail ∧
        (result.1 = true ∧ done ≠ [] ∨ result.1 = false ∧ messages = [] ∧ tail = []))
      (readRawBatch (encodeMessages messages ++ tail)) := by
  rw [readRawBatch]
  apply (fillBatch_meets htail decodeBatchMessages messages .empty).bind
  rintro ⟨batch, rest⟩ ⟨done, left, hmessages, hslices, hrest, hends⟩
  have hdone : batch.slices = done.map (·.bytes) := hslices
  refine .ok ⟨done, left, hmessages, hdone, hrest, ?_⟩
  dsimp only
  rw [RawBatch.isEmpty_bounds, hdone, List.isEmpty_map]
  cases done with
  | nil => exact Or.inr ⟨rfl, hends (by decide) (by decide) rfl⟩
  | cons message done => exact Or.inl ⟨rfl, List.cons_ne_nil _ _⟩

/-- Draining such a stream succeeds only if it ends between two messages, and then with all of
them in order, whatever is done with each batch. -/
theorem drainBatches_meets {α : Type} {consume : RawBatch → Result α} {tail : List UInt8}
    (htail : tail = [] ∨ CutMessage tail) (messages : List RawMessage) :
    Meets (fun _ => tail ≠ [] ∨ ∃ batch failure, consume batch = .error failure)
      (fun results => tail = [] ∧ ∃ batches : List RawBatch,
        batches.flatMap RawBatch.slices = messages.map (·.bytes) ∧
        List.Forall₂ (fun batch result => consume batch = .ok result) batches results)
      (drainBatches consume (encodeMessages messages ++ tail)) := by
  induction hlength : messages.length using Nat.strong_induction_on generalizing messages with
  | h n ih =>
      subst hlength
      have hmeets := readRawBatch_meets htail messages
      cases hread : readRawBatch (encodeMessages messages ++ tail) with
      | error failure =>
          rw [drainBatches_error hread]
          rw [hread] at hmeets
          cases hmeets with
          | error h => exact .error (Or.inl h)
      | ok result =>
          rw [hread] at hmeets
          cases hmeets with
          | ok h =>
              obtain ⟨more, batch, rest⟩ := result
              obtain ⟨done, left, hmessages, hslices, hrest, ⟨hmore, hdone⟩ | ⟨hmore, hnil, htail⟩⟩ :=
                h
              · obtain rfl : more = true := hmore
                obtain rfl : rest = encodeMessages left ++ tail := hrest
                rw [drainBatches_more hread]
                cases hconsume : consume batch with
                | error failure => exact .error (Or.inr ⟨batch, failure, hconsume⟩)
                | ok result =>
                    have hshort : left.length < messages.length := by
                      have hpos := List.length_pos_iff.mpr hdone
                      rw [hmessages, List.length_append]
                      omega
                    apply (ih left.length hshort left rfl).bind
                    rintro results ⟨hend, batches, hbatches, hresults⟩
                    refine .ok ⟨hend, batch :: batches, ?_, .cons hconsume hresults⟩
                    rw [List.flatMap_cons, hbatches, hmessages, List.map_append]
                    exact congrArg (· ++ _) hslices
              · obtain rfl : more = false := hmore
                rw [drainBatches_done hread, hnil]
                exact .ok ⟨htail, [], rfl, .nil⟩

/-- A whole stream of messages is drained when no batch is refused. -/
theorem drainBatches_messages {α : Type} (f : RawBatch → α) (messages : List RawMessage) :
    ∃ batches : List RawBatch, batches.flatMap RawBatch.slices = messages.map (·.bytes) ∧
      drainBatches (fun batch => .ok (f batch)) (encodeMessages messages) =
        .ok (batches.map f) := by
  have hmeets := @drainBatches_meets α (fun batch => .ok (f batch)) [] (Or.inl rfl) messages
  rw [List.append_nil] at hmeets
  obtain ⟨results, hread, -, batches, hbatches, hresults⟩ := hmeets.exists_ok (by simp)
  have hmap : batches.map f = results := by
    rw [← List.forall₂_eq_eq_eq, List.forall₂_map_left_iff]
    exact hresults.imp fun _ _ heq => Except.ok.inj heq
  exact ⟨batches, hbatches, hmap ▸ hread⟩

/-- **Batches lose and split no message: a stream is read as its messages in order, and one cut
inside of a message is an error.** -/
theorem batches_hold_messages (messages : List RawMessage) :
    (∃ batches, readBatches (encodeMessages messages) = .ok batches ∧
      batches.flatten = messages.map (·.bytes)) ∧
    ∀ cut, cut <+: encodeMessages messages → (∀ k, cut ≠ encodeMessages (messages.take k)) →
      ∃ failure, readBatches cut = .error failure := by
  constructor
  · obtain ⟨batches, hbatches, hread⟩ := drainBatches_messages RawBatch.slices messages
    exact ⟨_, hread, by rw [← List.flatMap_def, hbatches]⟩
  · intro cut hcut hinside
    obtain ⟨k, tail, rfl, htail⟩ := exists_cut hcut
    have hmeets := @drainBatches_meets _ (fun batch => .ok batch.slices) tail htail
      (messages.take k)
    obtain ⟨failure, hread, -⟩ := hmeets.exists_error (by
      rintro results ⟨rfl, -⟩
      exact hinside k (List.append_nil _))
    exact ⟨failure, hread⟩

/-- The stream of one message of one byte, cut after its length. -/
theorem batches_hold_messages_cut :
    ∃ failure, readBatches [1] = .error failure := by
  have hencode : encodeMessages [⟨[7], by decide⟩] = [1, 7] := by
    simp [encodeMessages, encodeMessage, encode_of_lt]
  apply (batches_hold_messages [⟨[7], by decide⟩]).2 [1] (by rw [hencode]; decide)
  intro k
  cases k with
  | zero => decide
  | succ k =>
      rw [List.take_of_length_le (Nat.succ_le_succ (Nat.zero_le k)), hencode]
      decide

end BazelDiff
