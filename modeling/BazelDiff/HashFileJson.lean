/-
# The JSON form of hash files

A hash file is written in one of two shapes: a bare object of labels and hashes, or an object
with the hashes and the metadata next to them. It is written by two encoders, one that
streams and one that builds a value first, and read by one visitor that accepts both shapes.
-/

import BazelDiff.HashFile
import BazelDiff.Lib.JsonCodec

namespace BazelDiff

open Text Outcome

/-- `[u8; 32]`. -/
def Sha256Bytes : Type := { bytes : List UInt8 // bytes.length = 32 }
  deriving DecidableEq

/-! ## Digests -/

/-- The value of a lowercase hexadecimal digit; `TABLE` of the source. -/
def lowercaseHexValue (byte : UInt8) : Option UInt8 :=
  if 48 ≤ byte ∧ byte ≤ 57 then some (byte - 48)
  else if 97 ≤ byte ∧ byte ≤ 102 then some (byte - 87)
  else none

/-- Two digits a byte, all of them lowercase. -/
def decodePairs : List UInt8 → Option (List UInt8)
  | high :: low :: rest => do
      let high ← lowercaseHexValue high
      let low ← lowercaseHexValue low
      let rest ← decodePairs rest
      return (high <<< 4 ||| low) :: rest
  | _ => some []

/-- Decodes exactly 64 lowercase hex digits; anything else is `none`. -/
def decodeLowercaseHex (value : String) : Option Sha256Bytes :=
  if (utf8 value).length ≠ 64 then none
  else (decodePairs (utf8 value)).bind fun bytes =>
    if h : bytes.length = 32 then some ⟨bytes, h⟩ else none

namespace Digest

def parse (value : String) : Digest Sha256Bytes :=
  match decodeLowercaseHex value with
  | some bytes => .sha256 bytes
  | none => .text value

/-- The `Display` form. -/
def display : Digest Sha256Bytes → String
  | .sha256 bytes => Hex.encode bytes.1
  | .text value => value

end Digest

namespace TargetHash

def parse (value : String) : Except String (TargetHash Sha256Bytes) :=
  let (kind, hashes) := (splitOnce "#" value).getD ("", value)
  match splitOnce "~" hashes with
  | none => .error ("Invalid targetHash format: " ++ value)
  | some (hash, directHash) =>
      if '~' ∈ directHash.toList ∨ '#' ∈ kind.toList then
        .error ("Invalid targetHash format: " ++ value)
      else .ok ⟨kind, Digest.parse hash, Digest.parse directHash⟩

def jsonValue (hash : TargetHash Sha256Bytes) (includeTargetType : Bool) : String :=
  if includeTargetType then
    hash.kind ++ "#" ++ (hash.hash.display ++ "~" ++ hash.directHash.display)
  else hash.hash.display ++ "~" ++ hash.directHash.display

end TargetHash

/-! ## Recipes -/

namespace RuleRecipe

/-- A recipe is stored as `[static, sources, deps]`. -/
def serialize (recipe : RuleRecipe) : Json :=
  .array [.string recipe.staticHex, Json.ofStrings recipe.sources, Json.ofStrings recipe.deps]

def deserialize : Json.Reader RuleRecipe
  | .array [staticHex, sources, deps] => do
      let staticHex ← Json.readString staticHex
      let sources ← Json.readStrings sources
      let deps ← Json.readStrings deps
      return ⟨staticHex, sources, deps⟩
  | _ => .error "expected tuple struct RuleRecipe with 3 elements"

end RuleRecipe

namespace PartialRecipes

/-- Write a map unless it is empty. -/
def unlessEmpty {V : Type} (write : V → Json) (map : StringMap V) : Option Json :=
  if map.isEmpty then none else some (Json.ofMap write map)

def fields (recipes : PartialRecipes) : List (String × Option Json) :=
  [("version", some (.number recipes.version)),
    ("seedHash", some (.string recipes.seedHash)),
    ("packageSeeds", some (.bool recipes.packageSeeds)),
    ("packageSubincludes", unlessEmpty Json.ofStrings recipes.packageSubincludes),
    ("sourceSubincludes", unlessEmpty Json.ofStrings recipes.sourceSubincludes),
    ("rules", some (Json.ofMap RuleRecipe.serialize recipes.rules)),
    ("generated", unlessEmpty Json.string recipes.generated),
    ("loadInputs", if recipes.loadInputs.isEmpty then none
      else some (Json.ofSet recipes.loadInputs))]

def serialize (recipes : PartialRecipes) : Json :=
  .object (Json.record recipes.fields)

def fieldNames : List String :=
  ["version", "seedHash", "packageSeeds", "packageSubincludes", "sourceSubincludes", "rules",
    "generated", "loadInputs"]

def deserialize : Json.Reader PartialRecipes := fun document => do
  let fields ← Json.readFields fieldNames 6 document
  let version ← Json.required (Json.readUnsigned 32) fields "version"
  let seedHash ← Json.required Json.readString fields "seedHash"
  let packageSeeds ← Json.required Json.readBool fields "packageSeeds"
  let packageSubincludes ←
    Json.defaulted (Json.readMap Json.readStrings) ∅ fields "packageSubincludes"
  let sourceSubincludes ←
    Json.defaulted (Json.readMap Json.readStrings) ∅ fields "sourceSubincludes"
  let rules ← Json.required (Json.readMap RuleRecipe.deserialize) fields "rules"
  let generated ← Json.defaulted (Json.readMap Json.readString) ∅ fields "generated"
  let loadInputs ← Json.defaulted Json.readSet ∅ fields "loadInputs"
  return { version, seedHash, packageSeeds, packageSubincludes, sourceSubincludes, rules,
           generated, loadInputs }

end PartialRecipes

/-! ## Hash files -/

namespace HashFileData

variable (data : HashFileData Sha256Bytes)

/-- `SerializedHashes`. -/
def serializedHashes (includeTargetType : Bool) : Json :=
  Json.ofMap (fun hash => .string (hash.jsonValue includeTargetType)) data.hashes

def includesDepEdges (includeDeps : Bool) : Bool :=
  includeDeps && !data.depEdges.isEmpty

/-- The fields of `SerializedMetadata`, in the order they are written. -/
def metadataFields (includeDeps : Bool) : List (String × Option Json) :=
  [("moduleGraphJson", data.moduleGraphJson.map Json.string),
    ("dependencyFingerprint", data.dependencyFingerprint.map Json.string),
    ("depEdges", if data.includesDepEdges includeDeps then
      some (Json.ofMap Json.ofStrings data.depEdges) else none),
    ("partialGraph", data.partialGraph.map PartialRecipes.serialize),
    ("tree", data.tree.map Json.string)]

/-- `SerializedMetadata`. -/
def serializedMetadata (includeDeps : Bool) : Json :=
  .object (Json.record (data.metadataFields includeDeps))

/-- Whether the bare shape is written. -/
def isBare (includeDeps : Bool) : Bool :=
  data.moduleGraphJson.isNone && data.dependencyFingerprint.isNone &&
    data.partialGraph.isNone && data.tree.isNone && (!includeDeps || data.depEdges.isEmpty)

/-- `SerializedHashFile`. -/
def serialized (includeTargetType includeDeps : Bool) : Json :=
  if data.isBare includeDeps then data.serializedHashes includeTargetType
  else .object [("hashes", data.serializedHashes includeTargetType),
    ("metadata", data.serializedMetadata includeDeps)]

/-- The second encoder: the same document as a value. -/
def toValue (includeTargetType includeDeps : Bool) : Json :=
  let hashes : StringMap Json := Std.ExtTreeMap.ofList (data.hashes.toList.map fun entry =>
    (entry.1, Json.string (entry.2.jsonValue includeTargetType)))
  if data.moduleGraphJson.isNone && data.dependencyFingerprint.isNone &&
      data.partialGraph.isNone && data.tree.isNone && (!includeDeps || data.depEdges.isEmpty) then
    .object hashes.toList
  else
    let metadata : StringMap Json := ∅
    let metadata := Json.insertField metadata "moduleGraphJson"
      (data.moduleGraphJson.map Json.string)
    let metadata := Json.insertField metadata "dependencyFingerprint"
      (data.dependencyFingerprint.map Json.string)
    let metadata := Json.insertField metadata "depEdges"
      (if includeDeps && !data.depEdges.isEmpty then
        some (Json.value (Json.ofMap Json.ofStrings data.depEdges)) else none)
    let metadata := Json.insertField metadata "partialGraph"
      (data.partialGraph.map fun recipes => Json.value recipes.serialize)
    let metadata := Json.insertField metadata "tree" (data.tree.map Json.string)
    .object (Std.ExtTreeMap.ofList
      [("hashes", Json.object hashes.toList), ("metadata", Json.object metadata.toList)]).toList

/-- A hash value: a string in the target-hash format. -/
def readHash : Json.Reader (TargetHash Sha256Bytes) := fun document => do
  TargetHash.parse (← Json.readString document)

def metadataNames : List String :=
  ["moduleGraphJson", "dependencyFingerprint", "depEdges", "partialGraph", "tree"]

/-- `Metadata`: everything of a hash file but its hashes. -/
def readMetadata (hashes : StringMap (TargetHash Sha256Bytes)) :
    Json.Reader (HashFileData Sha256Bytes) := fun document => do
  let fields ← Json.readFields metadataNames 2 document
  let moduleGraphJson ← Json.optional Json.readString fields "moduleGraphJson"
  let dependencyFingerprint ← Json.optional Json.readString fields "dependencyFingerprint"
  let depEdges ← Json.defaulted (Json.readMap Json.readStrings) ∅ fields "depEdges"
  let partialGraph ← Json.optional PartialRecipes.deserialize fields "partialGraph"
  let tree ← Json.optional Json.readString fields "tree"
  return { hashes, moduleGraphJson, dependencyFingerprint, depEdges, partialGraph, tree }

/-- One key of the visited object. -/
def visitEntry (data : HashFileData Sha256Bytes) (entry : String × Json) :
    Except String (HashFileData Sha256Bytes) :=
  if entry.1 = "hashes" then do
    let hashes ← Json.readMap readHash entry.2
    return { data with hashes }
  else if entry.1 = "metadata" then readMetadata data.hashes entry.2
  else do
    let hash ← readHash entry.2
    return { data with hashes := data.hashes.insert entry.1 hash }

/-- `HashFileVisitor`. -/
def deserialize : Json.Reader (HashFileData Sha256Bytes)
  | .object entries => entries.foldlM visitEntry {}
  | _ => .error "expected a hash file object"

/-- Parses either hash-file shape, given the parser of JSON texts. -/
def fromSlice (parse : List UInt8 → Except String Json) (bytes : List UInt8) :
    Result (HashFileData Sha256Bytes) :=
  match parse bytes >>= deserialize with
  | .ok data => .ok data
  | .error message => bail ("invalid hash JSON: " ++ message)

end HashFileData

/-! ## Digests read back -/

theorem utf8EncodeChar_digit : ∀ n < 16, ∃ byte, String.utf8EncodeChar (Hex.digit n) = [byte] ∧
    lowercaseHexValue byte = some (UInt8.ofNat n) := by
  have hdigit : ∀ n < 16, String.utf8EncodeChar (Hex.digit n) =
      [UInt8.ofNat (Hex.digit n).toNat] ∧
        lowercaseHexValue (UInt8.ofNat (Hex.digit n).toNat) = some (UInt8.ofNat n) := by
    decide
  exact fun n hn => ⟨_, hdigit n hn⟩

theorem join_halves (byte : UInt8) :
    (UInt8.ofNat (byte.toNat / 16) <<< 4 ||| UInt8.ofNat (byte.toNat % 16)) = byte := by
  have hall : ∀ n < 256, (UInt8.ofNat (n / 16) <<< 4 ||| UInt8.ofNat (n % 16)) = UInt8.ofNat n := by
    decide +kernel
  rw [hall byte.toNat byte.toNat_lt, UInt8.ofNat_toNat]

theorem utf8_encode_cons (byte : UInt8) (bytes : List UInt8) :
    ∃ high low, utf8 (Hex.encode (byte :: bytes)) = high :: low :: utf8 (Hex.encode bytes) ∧
      lowercaseHexValue high = some (UInt8.ofNat (byte.toNat / 16)) ∧
      lowercaseHexValue low = some (UInt8.ofNat (byte.toNat % 16)) := by
  obtain ⟨high, hhigh, hhighValue⟩ :=
    utf8EncodeChar_digit (byte.toNat / 16) (by have := byte.toNat_lt; omega)
  obtain ⟨low, hlow, hlowValue⟩ := utf8EncodeChar_digit (byte.toNat % 16) (by omega)
  refine ⟨high, low, ?_, hhighValue, hlowValue⟩
  simp [utf8, Hex.encode, hhigh, hlow]

theorem decodePairs_encode (bytes : List UInt8) :
    decodePairs (utf8 (Hex.encode bytes)) = some bytes ∧
      (utf8 (Hex.encode bytes)).length = 2 * bytes.length := by
  induction bytes with
  | nil => exact ⟨rfl, rfl⟩
  | cons byte rest ih =>
      obtain ⟨high, low, htext, hhigh, hlow⟩ := utf8_encode_cons byte rest
      rw [htext]
      constructor
      · rw [decodePairs, hhigh, hlow, ih.1]
        simp [join_halves]
      · rw [List.length_cons, List.length_cons, ih.2, List.length_cons]
        omega

/-- A SHA-256 digest is read back from its text. -/
theorem Digest.parse_display (bytes : Sha256Bytes) :
    Digest.parse (Digest.display (.sha256 bytes)) = .sha256 bytes := by
  obtain ⟨hdecode, hlength⟩ := decodePairs_encode bytes.1
  have h64 : (utf8 (Hex.encode bytes.1)).length = 64 := by rw [hlength, bytes.2]
  have hhex : decodeLowercaseHex (Hex.encode bytes.1) = some bytes := by
    rw [decodeLowercaseHex, if_neg (not_not.mpr h64), hdecode, Option.bind_some, dif_pos bytes.2]
    rfl
  rw [display, parse, hhex]

theorem not_mem_encode {c : Char} (hc : ∀ n < 16, Hex.digit n ≠ c) (bytes : List UInt8) :
    c ∉ (Hex.encode bytes).toList := by
  rw [Hex.encode, String.toList_ofList, List.mem_flatMap]
  rintro ⟨byte, -, hmem⟩
  have hhigh := hc (byte.toNat / 16) (by have := byte.toNat_lt; omega)
  have hlow := hc (byte.toNat % 16) (by omega)
  rcases List.mem_cons.mp hmem with heq | hmem
  · exact hhigh heq.symm
  · exact hlow (List.mem_singleton.mp hmem).symm

/-! ## Target hashes read back -/

namespace TargetHash

/-- Both digests are SHA-256 values and the kind can be told from what follows it. -/
structure WellFormed (target : TargetHash Sha256Bytes) : Prop where
  hash : ∃ bytes, target.hash = .sha256 bytes
  directHash : ∃ bytes, target.directHash = .sha256 bytes
  kind : '#' ∉ target.kind.toList

/-- The hash a file written without target types holds. -/
def typed (includeTargetType : Bool) (hash : TargetHash Sha256Bytes) : TargetHash Sha256Bytes :=
  if includeTargetType then hash else { hash with kind := "" }

theorem parse_jsonValue {hash : TargetHash Sha256Bytes} (h : hash.WellFormed)
    (includeTargetType : Bool) :
    parse (hash.jsonValue includeTargetType) = .ok (hash.typed includeTargetType) := by
  obtain ⟨kind, digest, directDigest⟩ := hash
  obtain ⟨⟨bytes, hbytes⟩, ⟨directBytes, hdirect⟩, hkind⟩ := h
  dsimp only at hbytes hdirect hkind
  subst hbytes hdirect
  have hashFree : ∀ bytes : Sha256Bytes, '#' ∉ (Digest.display (.sha256 bytes)).toList :=
    fun bytes => not_mem_encode (by decide) bytes.1
  have tildeFree : ∀ bytes : Sha256Bytes, '~' ∉ (Digest.display (.sha256 bytes)).toList :=
    fun bytes => not_mem_encode (by decide) bytes.1
  have hdigests : splitOnce "~" (Digest.display (.sha256 bytes) ++ "~" ++
      Digest.display (.sha256 directBytes)) =
        some (Digest.display (.sha256 bytes), Digest.display (.sha256 directBytes)) :=
    splitOnce_append rfl (tildeFree bytes)
  cases includeTargetType with
  | true =>
      have hsplit : splitOnce "#" (kind ++ "#" ++ (Digest.display (.sha256 bytes) ++ "~" ++
          Digest.display (.sha256 directBytes))) = some (kind, Digest.display (.sha256 bytes) ++
            "~" ++ Digest.display (.sha256 directBytes)) := splitOnce_append rfl hkind
      rw [jsonValue, if_pos rfl, parse, hsplit]
      simp only [Option.getD_some, hdigests, tildeFree directBytes, hkind, or_self, if_false,
        Digest.parse_display]
      rfl
  | false =>
      have hsplit : splitOnce "#" (Digest.display (.sha256 bytes) ++ "~" ++
          Digest.display (.sha256 directBytes)) = none := by
        apply splitOnce_eq_none rfl
        rw [String.toList_append, String.toList_append, List.mem_append, List.mem_append]
        rintro ((hmem | hmem) | hmem)
        · exact hashFree bytes hmem
        · exact absurd hmem (by decide)
        · exact hashFree directBytes hmem
      rw [jsonValue, if_neg Bool.false_ne_true, parse, hsplit]
      simp only [Option.getD_none, hdigests, tildeFree directBytes, Digest.parse_display]
      rfl

end TargetHash

/-! ## Recipes read back -/

theorem RuleRecipe.deserialize_serialize (recipe : RuleRecipe) :
    deserialize recipe.serialize = .ok recipe := by
  rw [serialize, deserialize, Json.readStrings_ofStrings, Json.readStrings_ofStrings]
  rfl

namespace PartialRecipes

/-- A map that is left out when it is empty is read back. -/
theorem defaulted_unlessEmpty {V : Type} {read : Json.Reader V} {write : V → Json}
    (h : ∀ found, read (write found) = .ok found) (map : StringMap V)
    {fields : StringMap Json} {name : String}
    (hfield : fields[name]? = unlessEmpty write map) :
    Json.defaulted (Json.readMap read) ∅ fields name = .ok map := by
  rw [Json.defaulted, hfield, unlessEmpty]
  split_ifs with hempty
  · rw [Std.ExtTreeMap.isEmpty_iff.mp hempty]
  · exact Json.readMap_ofMap_self map h

theorem deserialize_serialize {recipes : PartialRecipes} (hversion : recipes.version < 2 ^ 32) :
    deserialize recipes.serialize = .ok recipes := by
  have hnodup : (recipes.fields.map Prod.fst).Nodup := by
    change fieldNames.Nodup
    decide
  have hread : Json.readFields fieldNames 6 recipes.serialize =
      .ok (Json.recordMap recipes.fields ∅) :=
    Json.readFields_record 6 hnodup fun entry hentry =>
      (List.mem_map_of_mem hentry : entry.1 ∈ recipes.fields.map Prod.fst)
  have hfield : ∀ entry ∈ recipes.fields,
      (Json.recordMap recipes.fields ∅)[entry.1]? = entry.2 := fun entry hentry =>
    Json.getElem?_recordMap hnodup hentry Std.ExtTreeMap.getElem?_empty
  generalize Json.recordMap recipes.fields ∅ = map at hread hfield
  have hversion' : Json.required (Json.readUnsigned 32) map "version" = .ok recipes.version := by
    rw [Json.required, hfield ("version", some (.number recipes.version)) (by simp [fields])]
    exact if_pos hversion
  have hseed : Json.required Json.readString map "seedHash" = .ok recipes.seedHash := by
    rw [Json.required, hfield ("seedHash", some (.string recipes.seedHash)) (by simp [fields])]
    rfl
  have hseeds : Json.required Json.readBool map "packageSeeds" = .ok recipes.packageSeeds := by
    rw [Json.required, hfield ("packageSeeds", some (.bool recipes.packageSeeds))
      (by simp [fields])]
    rfl
  have hpackage : Json.defaulted (Json.readMap Json.readStrings) ∅ map "packageSubincludes" =
      .ok recipes.packageSubincludes :=
    defaulted_unlessEmpty Json.readStrings_ofStrings _
      (hfield ("packageSubincludes", unlessEmpty Json.ofStrings recipes.packageSubincludes)
        (by simp [fields]))
  have hsource : Json.defaulted (Json.readMap Json.readStrings) ∅ map "sourceSubincludes" =
      .ok recipes.sourceSubincludes :=
    defaulted_unlessEmpty Json.readStrings_ofStrings _
      (hfield ("sourceSubincludes", unlessEmpty Json.ofStrings recipes.sourceSubincludes)
        (by simp [fields]))
  have hrules : Json.required (Json.readMap RuleRecipe.deserialize) map "rules" =
      .ok recipes.rules := by
    rw [Json.required, hfield ("rules", some (Json.ofMap RuleRecipe.serialize recipes.rules))
      (by simp [fields])]
    exact Json.readMap_ofMap_self recipes.rules RuleRecipe.deserialize_serialize
  have hgenerated : Json.defaulted (Json.readMap Json.readString) ∅ map "generated" =
      .ok recipes.generated :=
    defaulted_unlessEmpty Json.readString_string _
      (hfield ("generated", unlessEmpty Json.string recipes.generated) (by simp [fields]))
  have hload : Json.defaulted Json.readSet ∅ map "loadInputs" = .ok recipes.loadInputs := by
    rw [Json.defaulted, hfield ("loadInputs", if recipes.loadInputs.isEmpty then none
      else some (Json.ofSet recipes.loadInputs)) (by simp [fields])]
    dsimp only
    split_ifs with hempty
    · rw [Std.ExtTreeSet.isEmpty_iff.mp hempty]
    · exact Json.readSet_ofSet recipes.loadInputs
  rw [deserialize, hread]
  change (do
    let version ← Json.required (Json.readUnsigned 32) map "version"
    _) = _
  rw [hversion', hseed, hseeds, hpackage, hsource, hrules, hgenerated, hload]
  rfl

end PartialRecipes

/-! ## Hash files read back -/

namespace HashFileData

/-- What a hash file has to satisfy to be told apart from other files by its text: its digests
are SHA-256 values, its kinds have no `#`, no label is a wrapper key, and the version of its
recipes is a `u32`. -/
structure WellFormed (data : HashFileData Sha256Bytes) : Prop where
  hashes : ∀ label : String, ∀ hash, data.hashes[label]? = some hash → hash.WellFormed
  labels : ∀ label ∈ data.hashes, label ≠ "hashes" ∧ label ≠ "metadata"
  version : ∀ recipes, data.partialGraph = some recipes → recipes.version < 2 ^ 32

/-- What a file written with these options holds of the data. -/
def written (data : HashFileData Sha256Bytes) (includeTargetType includeDeps : Bool) :
    HashFileData Sha256Bytes :=
  { data with
    hashes := data.hashes.map fun _ hash => hash.typed includeTargetType
    depEdges := if includeDeps then data.depEdges else ∅ }

variable {data : HashFileData Sha256Bytes}

theorem readMap_serializedHashes (h : data.WellFormed) (includeTargetType : Bool) :
    Json.readMap readHash (data.serializedHashes includeTargetType) =
      .ok (data.hashes.map fun _ hash => hash.typed includeTargetType) := by
  apply Json.readMap_ofMap
  intro label hash hhash
  exact TargetHash.parse_jsonValue (h.hashes label hash hhash) includeTargetType

theorem readMetadata_serializedMetadata (h : data.WellFormed) (includeDeps : Bool)
    (hashes : StringMap (TargetHash Sha256Bytes)) :
    readMetadata hashes (data.serializedMetadata includeDeps) =
      .ok { data with hashes, depEdges := if includeDeps then data.depEdges else ∅ } := by
  have hnodup : ((data.metadataFields includeDeps).map Prod.fst).Nodup := by
    change metadataNames.Nodup
    decide
  have hread : Json.readFields metadataNames 2 (data.serializedMetadata includeDeps) =
      .ok (Json.recordMap (data.metadataFields includeDeps) ∅) :=
    Json.readFields_record 2 hnodup fun entry hentry =>
      (List.mem_map_of_mem hentry : entry.1 ∈ (data.metadataFields includeDeps).map Prod.fst)
  have hfield : ∀ entry ∈ data.metadataFields includeDeps,
      (Json.recordMap (data.metadataFields includeDeps) ∅)[entry.1]? = entry.2 :=
    fun entry hentry => Json.getElem?_recordMap hnodup hentry Std.ExtTreeMap.getElem?_empty
  generalize Json.recordMap (data.metadataFields includeDeps) ∅ = map at hread hfield
  have hstring : ∀ text, Json.string text ≠ .null := fun _ heq => nomatch heq
  have hserialize : ∀ recipes, PartialRecipes.serialize recipes ≠ .null := fun _ heq => nomatch heq
  have hgraph : Json.optional Json.readString map "moduleGraphJson" = .ok data.moduleGraphJson :=
    Json.optional_map hstring (fun text _ => Json.readString_string text)
      (hfield ("moduleGraphJson", data.moduleGraphJson.map Json.string) (by simp [metadataFields]))
  have hfingerprint : Json.optional Json.readString map "dependencyFingerprint" =
      .ok data.dependencyFingerprint :=
    Json.optional_map hstring (fun text _ => Json.readString_string text)
      (hfield ("dependencyFingerprint", data.dependencyFingerprint.map Json.string)
        (by simp [metadataFields]))
  have hedges : Json.defaulted (Json.readMap Json.readStrings) ∅ map "depEdges" =
      .ok (if includeDeps then data.depEdges else ∅) := by
    rw [Json.defaulted, hfield ("depEdges", if data.includesDepEdges includeDeps then
      some (Json.ofMap Json.ofStrings data.depEdges) else none) (by simp [metadataFields])]
    cases includeDeps with
    | false => rfl
    | true =>
        cases hempty : data.depEdges.isEmpty with
        | true => simp [includesDepEdges, Std.ExtTreeMap.isEmpty_iff.mp hempty]
        | false =>
            simp only [includesDepEdges, hempty, Bool.not_false, Bool.and_self, if_true]
            exact Json.readMap_ofMap_self data.depEdges Json.readStrings_ofStrings
  have hpartial : Json.optional PartialRecipes.deserialize map "partialGraph" =
      .ok data.partialGraph :=
    Json.optional_map hserialize
      (fun recipes hrecipes => PartialRecipes.deserialize_serialize (h.version recipes hrecipes))
      (hfield ("partialGraph", data.partialGraph.map PartialRecipes.serialize)
        (by simp [metadataFields]))
  have htree : Json.optional Json.readString map "tree" = .ok data.tree :=
    Json.optional_map hstring (fun text _ => Json.readString_string text)
      (hfield ("tree", data.tree.map Json.string) (by simp [metadataFields]))
  rw [readMetadata, hread]
  change (do
    let moduleGraphJson ← Json.optional Json.readString map "moduleGraphJson"
    _) = _
  rw [hgraph, hfingerprint, hedges, hpartial, htree]
  rfl

/-- Entries of the bare shape are collected as the inner object's are. -/
theorem foldlM_visitEntry {entries : List (String × Json)}
    (hlabels : ∀ entry ∈ entries, entry.1 ≠ "hashes" ∧ entry.1 ≠ "metadata")
    (data : HashFileData Sha256Bytes) :
    entries.foldlM visitEntry data =
      (entries.foldlM (fun (map : StringMap (TargetHash Sha256Bytes)) (entry : String × Json) => do
        return map.insert entry.1 (← readHash entry.2)) data.hashes).map
          fun hashes => { data with hashes } := by
  induction entries generalizing data with
  | nil => rfl
  | cons entry rest ih =>
      obtain ⟨hhashes, hmetadata⟩ := hlabels entry List.mem_cons_self
      have hrest := ih fun later hlater => hlabels later (List.mem_cons_of_mem _ hlater)
      rw [List.foldlM_cons, List.foldlM_cons, visitEntry, if_neg hhashes, if_neg hmetadata]
      cases readHash entry.2 with
      | error message => rfl
      | ok hash => exact hrest { data with hashes := data.hashes.insert entry.1 hash }

theorem deserialize_serializedHashes (h : data.WellFormed) (includeTargetType : Bool) :
    deserialize (data.serializedHashes includeTargetType) =
      .ok { hashes := data.hashes.map fun _ hash => hash.typed includeTargetType } := by
  have hread := readMap_serializedHashes h includeTargetType
  rw [serializedHashes, Json.ofMap, Json.readMap] at hread
  rw [serializedHashes, Json.ofMap, deserialize, foldlM_visitEntry]
  · change Except.map _ (List.foldlM _ (∅ : StringMap (TargetHash Sha256Bytes)) _) = _
    rw [hread]
    rfl
  · intro entry hentry
    obtain ⟨found, hfound, rfl⟩ := List.mem_map.mp hentry
    exact h.labels found.1 (mem_of_getElem?
      (Std.ExtTreeMap.mem_toList_iff_getElem?_eq_some.mp hfound))

/-- The visitor reads what the streaming encoder wrote. -/
theorem deserialize_serialized (h : data.WellFormed) (includeTargetType includeDeps : Bool) :
    deserialize (data.serialized includeTargetType includeDeps) =
      .ok (data.written includeTargetType includeDeps) := by
  rw [serialized]
  split_ifs with hbare
  · rw [deserialize_serializedHashes h]
    simp only [isBare, Bool.and_eq_true, Option.isNone_iff_eq_none, Bool.or_eq_true,
      Bool.not_eq_true', Std.ExtTreeMap.isEmpty_iff] at hbare
    obtain ⟨⟨⟨⟨hgraph, hfingerprint⟩, hpartial⟩, htree⟩, hedges⟩ := hbare
    have hdropped : (if includeDeps then data.depEdges else ∅) = ∅ := by
      rcases hedges with hdeps | hempty
      · rw [hdeps, if_neg Bool.false_ne_true]
      · rw [hempty, ite_self]
    rw [written, hgraph, hfingerprint, hpartial, htree, hdropped]
  · rw [deserialize, List.foldlM_cons, visitEntry, if_pos rfl, readMap_serializedHashes h]
    change List.foldlM visitEntry { hashes := _ } [("metadata", _)] = _
    have hmetadata : ("metadata" : String) ≠ "hashes" := by decide
    rw [List.foldlM_cons, visitEntry, if_neg hmetadata, if_pos rfl,
      readMetadata_serializedMetadata h]
    rfl

/-! ## Both encoders write the same value -/

theorem value_serializedHashes (data : HashFileData Sha256Bytes) (includeTargetType : Bool) :
    Json.value (data.serializedHashes includeTargetType) =
      .object (Std.ExtTreeMap.ofList (data.hashes.toList.map fun entry =>
        (entry.1, Json.string (entry.2.jsonValue includeTargetType)))).toList := by
  rw [serializedHashes, Json.value_ofMap]
  simp only [Json.value]

theorem value_serializedMetadata (data : HashFileData Sha256Bytes) (includeDeps : Bool) :
    Json.value (data.serializedMetadata includeDeps) =
      .object (Json.recordMap ((data.metadataFields includeDeps).map
        fun entry => (entry.1, entry.2.map Json.value)) ∅).toList := by
  rw [serializedMetadata, Json.value, Json.valueEntries_record]

theorem map_value_string (text : Option String) :
    (text.map Json.string).map Json.value = text.map Json.string := by
  cases text with
  | none => rfl
  | some text => rw [Option.map_some, Option.map_some, Json.value]

theorem value_serialized (data : HashFileData Sha256Bytes) (includeTargetType includeDeps : Bool) :
    Json.value (data.serialized includeTargetType includeDeps) =
      data.toValue includeTargetType includeDeps := by
  rw [serialized, toValue]
  dsimp only
  rw [← isBare]
  by_cases hbare : data.isBare includeDeps = true
  · rw [if_pos hbare, if_pos hbare]
    exact value_serializedHashes data includeTargetType
  · have hedges : (if data.includesDepEdges includeDeps then
          some (Json.ofMap Json.ofStrings data.depEdges) else none).map Json.value =
        if includeDeps && !data.depEdges.isEmpty then
          some (Json.ofMap Json.ofStrings data.depEdges).value else none := by
      rw [includesDepEdges]
      split_ifs <;> rfl
    have hpartial : (data.partialGraph.map PartialRecipes.serialize).map Json.value =
        data.partialGraph.map fun recipes => Json.value recipes.serialize := Option.map_map ..
    rw [if_neg hbare, if_neg hbare, Json.value, Json.valueEntries_eq_foldl,
      Std.ExtTreeMap.ofList_eq_foldl]
    simp only [List.foldl_cons, List.foldl_nil, value_serializedHashes, value_serializedMetadata,
      metadataFields, List.map_cons, List.map_nil, map_value_string, Json.recordMap, hedges,
      hpartial]

/-! ## Hash files round-trip -/

theorem fromSlice_serialized (h : data.WellFormed) {parse : List UInt8 → Except String Json}
    {bytes : List UInt8} {includeTargetType includeDeps : Bool}
    (hparse : parse bytes = .ok (data.serialized includeTargetType includeDeps)) :
    fromSlice parse bytes = .ok (data.written includeTargetType includeDeps) := by
  rw [fromSlice, hparse]
  change (match deserialize (data.serialized includeTargetType includeDeps) with
    | .ok data => Except.ok data
    | .error message => bail ("invalid hash JSON: " ++ message)) = _
  rw [deserialize_serialized h]

/-- A hash file is read back as it was written, up to the dependency edges and the kinds the
options leave out, and both encoders write the same JSON. `text` is the text of each written
form and `parse` the parser of JSON texts; `hparse` asks that the parser reads the text of a
form as that form. -/
theorem serialized_roundTrip (h : data.WellFormed) (text : Bool → Bool → List UInt8)
    (parse : List UInt8 → Except String Json)
    (hparse : ∀ includeTargetType includeDeps,
      parse (text includeTargetType includeDeps) =
        .ok (data.serialized includeTargetType includeDeps)) :
    fromSlice parse (text true true) = .ok data ∧
    fromSlice parse (text true false) = .ok { data with depEdges := ∅ } ∧
    (∀ includeDeps, fromSlice parse (text false includeDeps) =
      .ok { data with
            hashes := data.hashes.map fun _ hash => { hash with kind := "" }
            depEdges := if includeDeps then data.depEdges else ∅ }) ∧
    ∀ includeTargetType includeDeps,
      Json.value (data.serialized includeTargetType includeDeps) =
        data.toValue includeTargetType includeDeps := by
  have hread := fun includeTargetType includeDeps =>
    fromSlice_serialized h (hparse includeTargetType includeDeps)
  have htyped : (data.hashes.map fun _ hash => hash.typed true) = data.hashes :=
    Json.map_self data.hashes
  constructor
  · rw [hread, written, htyped]
    rfl
  constructor
  · rw [hread, written, htyped]
    rfl
  constructor
  · intro includeDeps
    rw [hread]
    rfl
  · exact value_serialized data

/-- A rule's hash in the example file. -/
def exampleHash : TargetHash Sha256Bytes where
  kind := "Rule"
  hash := .sha256 ⟨List.replicate 32 171, rfl⟩
  directHash := .sha256 ⟨List.replicate 32 7, rfl⟩

/-- A file with recipes, edges, a tree and a rule's hash. -/
def exampleFile : HashFileData Sha256Bytes where
  hashes := Std.ExtTreeMap.ofList [("//a:b", exampleHash)]
  depEdges := Std.ExtTreeMap.ofList [("//a:b", ["//a:c"])]
  partialGraph := some
    { version := 1, seedHash := "00", packageSeeds := true
      rules := Std.ExtTreeMap.ofList [("//a:b", RuleRecipe.mk "ab" ["//a:b.txt"] [])] }
  tree := some "4b825dc"

/-- A text with the kind and the edges put in where they are asked for. -/
def optionText (before middle after : String) (includeTargetType includeDeps : Bool) : String :=
  before ++ (if includeTargetType then "Rule#" else "") ++ middle ++
    (if includeDeps then "\"depEdges\":\x7b\"//a:b\":[\"//a:c\"]\x7d," else "") ++ after

/-- Texts with different options have different lengths. -/
theorem optionText_eq_iff (before middle after : String) (options options' : Bool × Bool) :
    optionText before middle after options.1 options.2 =
      optionText before middle after options'.1 options'.2 ↔ options = options' := by
  have hkind : ∀ flag : Bool, (if flag then "Rule#" else "").length = if flag then 5 else 0 := by
    decide +kernel
  have hedges : ∀ flag : Bool,
      (if flag then "\"depEdges\":\x7b\"//a:b\":[\"//a:c\"]\x7d," else "").length =
        if flag then 31 else 0 := by
    decide +kernel
  constructor
  · intro heq
    have hlength := congrArg String.length heq
    rw [optionText, optionText] at hlength
    simp only [String.length_append, hkind, hedges] at hlength
    obtain ⟨includeTargetType, includeDeps⟩ := options
    obtain ⟨includeTargetType', includeDeps'⟩ := options'
    cases includeTargetType <;> cases includeDeps <;> cases includeTargetType' <;>
      cases includeDeps' <;>
      first
        | rfl
        | (simp only [if_true, Bool.false_eq_true, if_false] at hlength; omega)
  · intro heq
    rw [heq]

/-- The texts of the example file. -/
def exampleText : Bool → Bool → String :=
  optionText "\x7b\"hashes\":\x7b\"//a:b\":\""
    ("abababababababababababababababababababababababababababababababab~" ++
      "0707070707070707070707070707070707070707070707070707070707070707\"\x7d," ++
      "\"metadata\":\x7b")
    ("\"partialGraph\":\x7b\"version\":1,\"seedHash\":\"00\",\"packageSeeds\":true," ++
      "\"rules\":\x7b\"//a:b\":[\"ab\",[\"//a:b.txt\"],[]]\x7d\x7d,\"tree\":\"4b825dc\"\x7d\x7d")

/-- A parser of the four texts of the example file. -/
def exampleParse (bytes : List UInt8) : Except String Json :=
  match [(true, true), (true, false), (false, true), (false, false)].find? fun options =>
      utf8 (exampleText options.1 options.2) == bytes with
  | some options => .ok (exampleFile.serialized options.1 options.2)
  | none => .error "expected value"

theorem wellFormed_exampleFile : exampleFile.WellFormed where
  hashes label hash hhash := by
    rw [← Std.ExtTreeMap.mem_toList_iff_getElem?_eq_some] at hhash
    have hlist : exampleFile.hashes.toList = [("//a:b", exampleHash)] := by decide +kernel
    rw [hlist, List.mem_singleton] at hhash
    cases hhash
    exact ⟨⟨_, rfl⟩, ⟨_, rfl⟩, by decide +kernel⟩
  labels label hlabel := by
    have hkeys : exampleFile.hashes.keys = ["//a:b"] := by decide +kernel
    rw [← Std.ExtTreeMap.mem_keys, hkeys, List.mem_singleton] at hlabel
    rw [hlabel]
    decide
  version recipes hrecipes := by
    cases hrecipes
    decide

theorem exampleText_beq (options options' : Bool × Bool) :
    (utf8 (exampleText options.1 options.2) == utf8 (exampleText options'.1 options'.2)) =
      decide (options = options') := by
  rw [Bool.eq_iff_iff, beq_iff_eq, decide_eq_true_iff, utf8_injective.eq_iff, exampleText]
  exact optionText_eq_iff _ _ _ options options'

theorem exampleParse_exampleText (includeTargetType includeDeps : Bool) :
    exampleParse (utf8 (exampleText includeTargetType includeDeps)) =
      .ok (exampleFile.serialized includeTargetType includeDeps) := by
  have hfind : ([(true, true), (true, false), (false, true), (false, false)].find?
      fun options => decide (options = (includeTargetType, includeDeps))) =
        some (includeTargetType, includeDeps) := by
    cases includeTargetType <;> cases includeDeps <;> rfl
  have hsame := fun options => exampleText_beq options (includeTargetType, includeDeps)
  unfold exampleParse
  simp only [hsame, hfind]

theorem serialized_roundTrip_exampleFile :
    fromSlice exampleParse (utf8 (exampleText true true)) = .ok exampleFile ∧
      fromSlice exampleParse (utf8 (exampleText true false)) =
        .ok { exampleFile with depEdges := ∅ } := by
  have hfile := serialized_roundTrip wellFormed_exampleFile
    (fun includeTargetType includeDeps => utf8 (exampleText includeTargetType includeDeps))
    exampleParse exampleParse_exampleText
  exact ⟨hfile.1, hfile.2.1⟩

end HashFileData

end BazelDiff
