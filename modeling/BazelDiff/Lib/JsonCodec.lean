/-
# Writing and reading JSON values

A value is written as a document and read back from one. An object is written with its
entries in some order and read as a map; a record is written as an object that may leave
fields out. For each shape the reader undoes the writer as soon as the readers of the parts
undo their writers.
-/

import BazelDiff.Lib.Json
import BazelDiff.Lib.Outcome
import Mathlib.Algebra.Group.Nat.Defs
import Std.Data.ExtTreeMap
import Std.Data.ExtTreeSet

namespace Json

/-- A reader fails with what it expected. -/
abbrev Reader (α : Type) := Json → Except String α

variable {α : Type}

def readString : Reader String
  | .string value => .ok value
  | _ => .error "expected a string"

def readBool : Reader Bool
  | .bool value => .ok value
  | _ => .error "expected a boolean"

/-- An unsigned number of `width` bits. -/
def readUnsigned (width : Nat) : Reader Nat
  | .number value =>
      if value < 2 ^ width then .ok value else .error ("expected u" ++ toString width)
  | _ => .error ("expected u" ++ toString width)

def ofStrings (values : List String) : Json :=
  .array (values.map .string)

def readStrings : Reader (List String)
  | .array items => items.mapM readString
  | _ => .error "expected a sequence"

/-- A map as an object, in the order of its keys. -/
def ofMap (write : α → Json) (map : Std.ExtTreeMap String α) : Json :=
  .object (map.toList.map fun entry => (entry.1, write entry.2))

/-- Collect the entries of an object; of several entries with one key the last stays. -/
def readMap (read : Reader α) : Reader (Std.ExtTreeMap String α)
  | .object entries => entries.foldlM
      (fun map entry => do return map.insert entry.1 (← read entry.2)) ∅
  | _ => .error "expected a map"

def ofSet (set : Std.ExtTreeSet String) : Json :=
  ofStrings set.toList

def readSet : Reader (Std.ExtTreeSet String) := fun document => do
  return Std.ExtTreeSet.ofList (← readStrings document)

/-! ## Records -/

/-- One entry of an object that spells a record. -/
def readField (names : List String) (fields : Std.ExtTreeMap String Json)
    (entry : String × Json) : Except String (Std.ExtTreeMap String Json) :=
  if entry.1 ∉ names then .ok fields
  else if fields.contains entry.1 then .error ("duplicate field `" ++ entry.1 ++ "`")
  else .ok (fields.insert entry.1 entry.2)

/-- The values a document gives the fields of a record. An object gives them by name, each
at most once, and other names are passed over; an array gives them in order, and has to
reach the last field without a default. -/
def readFields (names : List String) (needed : Nat) : Reader (Std.ExtTreeMap String Json)
  | .object entries => entries.foldlM (readField names) ∅
  | .array items =>
      if items.length < needed ∨ names.length < items.length then .error "invalid length"
      else .ok (Std.ExtTreeMap.ofList (names.zip items))
  | _ => .error "expected a struct"

/-- A field that has to be there. -/
def required (read : Reader α) (fields : Std.ExtTreeMap String Json) (name : String) :
    Except String α :=
  match fields[name]? with
  | some document => read document
  | none => .error ("missing field `" ++ name ++ "`")

/-- A field with a default. -/
def defaulted (read : Reader α) (default : α) (fields : Std.ExtTreeMap String Json)
    (name : String) : Except String α :=
  match fields[name]? with
  | some document => read document
  | none => .ok default

/-- An optional field; `null` stands for its absence. -/
def optional (read : Reader α) (fields : Std.ExtTreeMap String Json) (name : String) :
    Except String (Option α) :=
  match fields[name]? with
  | some .null => .ok none
  | some document => return some (← read document)
  | none => .ok none

/-- The entry of a field that is written only when it has a value. -/
def field (name : String) (value : Option Json) : List (String × Json) :=
  value.toList.map fun document => (name, document)

/-- Put a field into a map when it has a value. -/
def insertField (map : Std.ExtTreeMap String Json) (name : String) :
    Option Json → Std.ExtTreeMap String Json
  | some document => map.insert name document
  | none => map

/-! ## Documents as values -/

mutual

/-- A document read as a value: objects become maps. -/
def value : Json → Json
  | .null => .null
  | .bool flag => .bool flag
  | .number n => .number n
  | .otherNumber literal => .otherNumber literal
  | .string text => .string text
  | .array items => .array (valueItems items)
  | .object entries => .object (valueEntries ∅ entries).toList

def valueItems : List Json → List Json
  | [] => []
  | item :: rest => value item :: valueItems rest

def valueEntries (map : Std.ExtTreeMap String Json) :
    List (String × Json) → Std.ExtTreeMap String Json
  | [] => map
  | (key, document) :: rest => valueEntries (map.insert key (value document)) rest

end

/-! ## Readers undo writers -/

/-- A map is determined by its entries. -/
theorem ofList_toList (map : Std.ExtTreeMap String α) : Std.ExtTreeMap.ofList map.toList = map := by
  apply Std.ExtTreeMap.ext_getElem?
  intro key
  cases hkey : map[key]? with
  | none =>
      apply Std.ExtTreeMap.getElem?_ofList_of_contains_eq_false
      rw [← Bool.not_eq_true, List.contains_iff_mem]
      intro hmem
      obtain ⟨entry, hentry, rfl⟩ := List.mem_map.mp hmem
      have hsome := Std.ExtTreeMap.mem_toList_iff_getElem?_eq_some.mp hentry
      rw [hkey] at hsome
      exact nomatch hsome
  | some found =>
      exact Std.ExtTreeMap.getElem?_ofList_of_mem Std.ReflCmp.compare_self
        Std.ExtTreeMap.distinct_keys_toList
        (Std.ExtTreeMap.mem_toList_iff_getElem?_eq_some.mpr hkey)

theorem ofList_toList_set (set : Std.ExtTreeSet String) :
    Std.ExtTreeSet.ofList set.toList = set := by
  apply Std.ExtTreeSet.ext_mem
  intro key
  rw [Std.ExtTreeSet.mem_ofList, List.contains_iff_mem, Std.ExtTreeSet.mem_toList]

theorem readString_string (value : String) : readString (.string value) = .ok value := rfl

@[simp]
theorem readStrings_ofStrings (values : List String) :
    readStrings (ofStrings values) = .ok values := by
  rw [ofStrings, readStrings]
  induction values with
  | nil => rfl
  | cons first rest ih =>
      rw [List.map_cons, List.mapM_cons, ih]
      rfl

@[simp]
theorem readSet_ofSet (set : Std.ExtTreeSet String) : readSet (ofSet set) = .ok set := by
  rw [readSet, ofSet, readStrings_ofStrings]
  change Except.ok (Std.ExtTreeSet.ofList set.toList) = .ok set
  rw [ofList_toList_set]

/-- Entries that are read one by one end up in the map they spell. -/
theorem foldlM_insert {β : Type} {read : Reader α} {write : β → Json} {view : β → α}
    (entries : List (String × β)) (map : Std.ExtTreeMap String α)
    (h : ∀ entry ∈ entries, read (write entry.2) = .ok (view entry.2)) :
    (entries.map fun entry => (entry.1, write entry.2)).foldlM
        (fun (map : Std.ExtTreeMap String α) entry => do
          return map.insert entry.1 (← read entry.2)) map =
      (.ok ((entries.map fun entry => (entry.1, view entry.2)).foldl
        (fun map entry => map.insert entry.1 entry.2) map) : Except String _) := by
  induction entries generalizing map with
  | nil => rfl
  | cons entry rest ih =>
      rw [List.map_cons, List.foldlM_cons, h entry List.mem_cons_self]
      exact ih _ fun later hlater => h later (List.mem_cons_of_mem _ hlater)

/-- A map is read back as its values are. -/
theorem readMap_ofMap {β : Type} {read : Reader α} {write : β → Json} {view : β → α}
    (map : Std.ExtTreeMap String β)
    (h : ∀ key : String, ∀ found, map[key]? = some found →
      read (write found) = .ok (view found)) :
    readMap read (ofMap write map) = .ok (map.map fun _ found => view found) := by
  have hentries : ∀ entry ∈ map.toList, read (write entry.2) = .ok (view entry.2) :=
    fun entry hentry =>
      h entry.1 entry.2 (Std.ExtTreeMap.mem_toList_iff_getElem?_eq_some.mp hentry)
  have hview : (map.map fun _ found => view found).toList =
      map.toList.map fun entry => (entry.1, view entry.2) := Std.ExtTreeMap.toList_map
  rw [ofMap, readMap]
  rw [foldlM_insert _ _ hentries, ← hview, ← Std.ExtTreeMap.ofList_eq_foldl, ofList_toList]

theorem map_self (map : Std.ExtTreeMap String α) : (map.map fun _ found => found) = map := by
  apply Std.ExtTreeMap.ext_getElem?
  intro key
  rw [Std.ExtTreeMap.getElem?_map, Option.map_id']

theorem readMap_ofMap_self {read : Reader α} {write : α → Json} (map : Std.ExtTreeMap String α)
    (h : ∀ found, read (write found) = .ok found) :
    readMap read (ofMap write map) = .ok map := by
  rw [readMap_ofMap map fun _ found _ => h found, map_self]

/-- The entries of a record whose fields may be left out. -/
def record (fields : List (String × Option Json)) : List (String × Json) :=
  fields.flatMap fun entry => field entry.1 entry.2

/-- The map a record's entries spell, on top of what was read before. -/
def recordMap (fields : List (String × Option Json)) (map : Std.ExtTreeMap String Json) :
    Std.ExtTreeMap String Json :=
  fields.foldl (fun map entry => insertField map entry.1 entry.2) map

theorem getElem?_insertField_of_ne {name other : String} (h : name ≠ other) (written : Option Json)
    (map : Std.ExtTreeMap String Json) : (insertField map name written)[other]? = map[other]? := by
  cases written with
  | none => rfl
  | some document =>
      rw [insertField, Std.ExtTreeMap.getElem?_insert, if_neg]
      exact fun heq => h (Std.LawfulEqCmp.compare_eq_iff_eq.mp heq)

theorem getElem?_insertField_self {name : String} (written : Option Json)
    {map : Std.ExtTreeMap String Json} (h : map[name]? = none) :
    (insertField map name written)[name]? = written := by
  cases written with
  | none => exact h
  | some document => exact Std.ExtTreeMap.getElem?_insert_self

theorem getElem?_recordMap_of_notMem {fields : List (String × Option Json)} {name : String}
    (h : name ∉ fields.map Prod.fst) (map : Std.ExtTreeMap String Json) :
    (recordMap fields map)[name]? = map[name]? := by
  induction fields generalizing map with
  | nil => rfl
  | cons entry rest ih =>
      rw [List.map_cons, List.mem_cons, not_or] at h
      rw [recordMap, List.foldl_cons]
      exact (ih h.2 _).trans (getElem?_insertField_of_ne (Ne.symm h.1) entry.2 map)

/-- An optional field is read back. -/
theorem optional_map {read : Reader α} {write : α → Json}
    (hnull : ∀ found, write found ≠ .null) {written : Option α}
    (h : ∀ found, written = some found → read (write found) = .ok found)
    {fields : Std.ExtTreeMap String Json} {name : String}
    (hfield : fields[name]? = written.map write) : optional read fields name = .ok written := by
  cases written with
  | none => rw [optional, hfield, Option.map_none]
  | some found =>
      rw [optional, hfield, Option.map_some]
      split
      · rename_i heq
        exact absurd (Option.some.inj heq) (hnull found)
      · rename_i heq
        rw [← Option.some.inj heq, h found rfl]
        rfl
      · rename_i heq
        exact nomatch heq

/-- Every field of a record is found under its name. -/
theorem getElem?_recordMap {fields : List (String × Option Json)}
    (hnodup : (fields.map Prod.fst).Nodup) {entry : String × Option Json} (hentry : entry ∈ fields)
    {map : Std.ExtTreeMap String Json} (hmap : map[entry.1]? = none) :
    (recordMap fields map)[entry.1]? = entry.2 := by
  induction fields generalizing map with
  | nil => exact absurd hentry List.not_mem_nil
  | cons first rest ih =>
      rw [List.map_cons, List.nodup_cons] at hnodup
      rcases List.mem_cons.mp hentry with rfl | hrest
      · rw [recordMap, List.foldl_cons]
        exact (getElem?_recordMap_of_notMem hnodup.1 _).trans
          (getElem?_insertField_self entry.2 hmap)
      · have hne : first.1 ≠ entry.1 := fun heq =>
          hnodup.1 (heq ▸ List.mem_map_of_mem hrest)
        rw [recordMap, List.foldl_cons]
        apply ih hnodup.2 hrest
        rw [getElem?_insertField_of_ne hne]
        exact hmap

/-- A record's fields are read back, whichever of them were written. -/
theorem readFields_record {fields : List (String × Option Json)} {names : List String}
    (needed : Nat) (hnodup : (fields.map Prod.fst).Nodup)
    (hnames : ∀ entry ∈ fields, entry.1 ∈ names) :
    readFields names needed (.object (record fields)) = .ok (recordMap fields ∅) := by
  have hsteps : ∀ map : Std.ExtTreeMap String Json, (∀ entry ∈ fields, entry.1 ∉ map) →
      (record fields).foldlM (readField names) map = .ok (recordMap fields map) := by
    induction fields with
    | nil => exact fun map _ => rfl
    | cons first rest ih =>
        intro map hfresh
        rw [List.map_cons, List.nodup_cons] at hnodup
        have hrest := ih hnodup.2 fun entry hentry => hnames entry (List.mem_cons_of_mem _ hentry)
        have hfirst := hfresh first List.mem_cons_self
        obtain ⟨name, written⟩ := first
        cases written with
        | none => exact hrest map fun entry hentry => hfresh entry (List.mem_cons_of_mem _ hentry)
        | some document =>
            have hknown : name ∈ names := hnames (name, some document) List.mem_cons_self
            have hcontains : map.contains name = false := by
              rw [← Bool.not_eq_true, Std.ExtTreeMap.contains_iff_mem]
              exact hfirst
            have hread : readField names map (name, document) = .ok (map.insert name document) := by
              simp [readField, hknown, hcontains]
            change ((name, document) :: record rest).foldlM (readField names) map = _
            rw [List.foldlM_cons, hread]
            apply hrest
            intro entry hentry
            rw [Std.ExtTreeMap.mem_insert, not_or]
            constructor
            · intro heq
              have hname : name = entry.1 := Std.LawfulEqCmp.compare_eq_iff_eq.mp heq
              apply hnodup.1
              show name ∈ rest.map Prod.fst
              rw [hname]
              exact List.mem_map_of_mem hentry
            · exact hfresh entry (List.mem_cons_of_mem _ hentry)
  rw [readFields]
  exact hsteps ∅ fun entry _ => Std.ExtTreeMap.not_mem_empty

/-! ## Reading written documents as values -/

theorem valueEntries_eq_foldl (entries : List (String × Json)) (map : Std.ExtTreeMap String Json) :
    valueEntries map entries =
      entries.foldl (fun map entry => map.insert entry.1 (value entry.2)) map := by
  induction entries generalizing map with
  | nil => rw [valueEntries, List.foldl_nil]
  | cons entry rest ih =>
      obtain ⟨key, document⟩ := entry
      rw [valueEntries, ih, List.foldl_cons]

theorem value_ofMap {β : Type} (write : β → Json) (map : Std.ExtTreeMap String β) :
    value (ofMap write map) =
      .object (Std.ExtTreeMap.ofList
        (map.toList.map fun entry => (entry.1, value (write entry.2)))).toList := by
  rw [ofMap, value, valueEntries_eq_foldl, Std.ExtTreeMap.ofList_eq_foldl, List.foldl_map,
    List.foldl_map]

theorem valueEntries_record (fields : List (String × Option Json))
    (map : Std.ExtTreeMap String Json) :
    valueEntries map (record fields) =
      recordMap (fields.map fun entry => (entry.1, entry.2.map value)) map := by
  rw [valueEntries_eq_foldl]
  induction fields generalizing map with
  | nil => rfl
  | cons first rest ih =>
      obtain ⟨name, written⟩ := first
      cases written with
      | none => exact ih map
      | some document => exact ih (map.insert name (value document))

end Json
