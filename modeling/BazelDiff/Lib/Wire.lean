/-
# Tagged fields

The wire format of a message is the concatenation of its fields, each a tag with the number
of the field, the length of what it carries and those bytes. A field shows where it ends, and
a list of fields ends before a field with a number of its own.
-/

import BazelDiff.Lib.Varint

namespace Wire

open Delimited

/-- A field that carries bytes. -/
structure Field where
  number : Nat
  payload : List UInt8

/-- The tag of a field that carries bytes ends in the wire type 2. -/
def Field.encode (field : Field) : List UInt8 :=
  Varint.encode (8 * field.number + 2) ++ Varint.delimit field.payload

theorem selfDelimiting_encode : SelfDelimiting Field.encode fun _ => True := by
  rintro ⟨number, payload⟩ ⟨number', payload'⟩ rest rest' _ _ h
  rw [Field.encode, Field.encode, List.append_assoc, List.append_assoc] at h
  obtain ⟨htag, hlater⟩ := Varint.selfDelimiting_encode _ _ _ _ trivial trivial h
  obtain ⟨hpayload, hrest⟩ := Varint.selfDelimiting_delimit _ _ _ _ trivial trivial hlater
  have hnumber : number = number' := by
    change 8 * number + 2 = 8 * number' + 2 at htag
    omega
  exact ⟨by rw [hnumber, show payload = payload' from hpayload], hrest⟩

/-- Nothing, or a field of one number. -/
def AtField (number : Nat) (rest : List UInt8) : Prop :=
  rest = [] ∨ ∃ payload, (Field.mk number payload).encode <+: rest

theorem not_atField_encode_append {number : Nat} {field : Field} (h : field.number ≠ number)
    (rest : List UInt8) : ¬ AtField number (field.encode ++ rest) := by
  rintro (hnil | ⟨payload, tail, htail⟩)
  · exact Varint.encode_ne_nil _ (List.append_eq_nil_iff.mp (List.append_eq_nil_iff.mp hnil).1).1
  · obtain ⟨rfl, -⟩ := selfDelimiting_encode _ _ _ _ trivial trivial htail
    exact h rfl

/-- Fields of other numbers can be told from what follows them when that is nothing or a field of
the number. -/
theorem flatMap_encode_append_inj {number : Nat} {fields fields' : List Field}
    {rest rest' : List UInt8} (hfields : ∀ field ∈ fields, field.number ≠ number)
    (hfields' : ∀ field ∈ fields', field.number ≠ number) (hrest : AtField number rest)
    (hrest' : AtField number rest')
    (h : fields.flatMap Field.encode ++ rest = fields'.flatMap Field.encode ++ rest') :
    fields = fields' ∧ rest = rest' := by
  induction fields generalizing fields' with
  | nil =>
      cases fields' with
      | nil => exact ⟨rfl, h⟩
      | cons field' fields' =>
          rw [List.flatMap_nil, List.nil_append, List.flatMap_cons, List.append_assoc] at h
          rw [h] at hrest
          exact absurd hrest (not_atField_encode_append (hfields' _ List.mem_cons_self) _)
  | cons field fields ih =>
      cases fields' with
      | nil =>
          rw [List.flatMap_nil, List.nil_append, List.flatMap_cons, List.append_assoc] at h
          rw [← h] at hrest'
          exact absurd hrest' (not_atField_encode_append (hfields _ List.mem_cons_self) _)
      | cons field' fields' =>
          rw [List.forall_mem_cons] at hfields hfields'
          rw [List.flatMap_cons, List.flatMap_cons, List.append_assoc, List.append_assoc] at h
          obtain ⟨rfl, hlater⟩ := selfDelimiting_encode _ _ _ _ trivial trivial h
          obtain ⟨rfl, hend⟩ := ih hfields.2 hfields'.2 hlater
          exact ⟨rfl, hend⟩

theorem flatMap_encode_injective :
    Function.Injective fun fields : List Field => fields.flatMap Field.encode := by
  intro fields fields' h
  have hne : ∀ field : Field, True → field.encode ≠ [] := by
    intro field _ hnil
    exact Varint.encode_ne_nil _ (List.append_eq_nil_iff.mp hnil).1
  exact selfDelimiting_encode.flatMap_inj hne (fun _ _ => trivial) (fun _ _ => trivial) h

/-! ## Messages -/

/-- The fields of a message, number after number, with what the fields of each number carry. -/
def message (numbers : List Nat) (values : Nat → List (List UInt8)) : List Field :=
  numbers.flatMap fun number => (values number).map (Field.mk number)

theorem number_mem {numbers : List Nat} {values : Nat → List (List UInt8)} {field : Field}
    (h : field ∈ message numbers values) : field.number ∈ numbers := by
  obtain ⟨number, hnumber, hfield⟩ := List.mem_flatMap.mp h
  obtain ⟨payload, -, rfl⟩ := List.mem_map.mp hfield
  exact hnumber

/-- A message shows what the fields of each of its numbers carry. -/
theorem payload_message {numbers : List Nat} (hnodup : numbers.Nodup)
    (values : Nat → List (List UInt8)) {number : Nat} (h : number ∈ numbers) :
    ((message numbers values).filter fun field => field.number = number).map (·.payload) =
      values number := by
  induction numbers with
  | nil => exact absurd h List.not_mem_nil
  | cons first numbers ih =>
      rw [List.nodup_cons] at hnodup
      have hmessage : message (first :: numbers) values =
          (values first).map (Field.mk first) ++ message numbers values := rfl
      rw [hmessage, List.filter_append, List.map_append]
      rcases eq_or_ne number first with rfl | hne
      · have hlater : (message numbers values).filter (fun field => field.number = number) = [] := by
          apply List.filter_eq_nil_iff.mpr
          intro field hfield hnumber
          exact hnodup.1 (of_decide_eq_true hnumber ▸ number_mem hfield)
        rw [hlater]
        simp [List.filter_map, Function.comp_def]
      · rw [ih hnodup.2 ((List.mem_cons.mp h).resolve_left hne)]
        simp [List.filter_map, Function.comp_def, hne.symm]

theorem message_inj {numbers : List Nat} (hnodup : numbers.Nodup)
    {values values' : Nat → List (List UInt8)}
    (h : message numbers values = message numbers values') :
    ∀ number ∈ numbers, values number = values' number := by
  intro number hnumber
  rw [← payload_message hnodup values hnumber, h, payload_message hnodup values' hnumber]

end Wire
