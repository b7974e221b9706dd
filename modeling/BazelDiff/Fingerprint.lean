/-
# The dependency fingerprint

A fingerprint is a digest of five named component digests. Two components are maps, and a map
is hashed as its keys and values one after another, with nothing between them. What the
fingerprint shows of a map is this one string of bytes: moving the end of a key or of a value
along it goes unseen, and nothing else does.
-/

import BazelDiff.Lib.Boundaries
import BazelDiff.Partial.Recipe

namespace BazelDiff.Fingerprint

open Text HashFunction Delimited Boundaries

structure FingerprintInputs where
  bazelDiffVersion : String
  bazelVersion : String
  moduleLockContent : Option (List UInt8)
  bazelrcContents : StringMap (List UInt8)
  flags : StringMap String

structure FingerprintResult where
  fingerprint : String
  components : StringMap String

/-- The keys and values of a map in order. -/
def mapParts {V : Type} (encode : V → List UInt8) (entries : StringMap V) : List (List UInt8) :=
  entries.toList.flatMap fun entry => [utf8 entry.1, encode entry.2]

/-- Whether there is a lock file, and what is in it. -/
def moduleLockParts : Option (List UInt8) → List (List UInt8)
  | some content => [utf8 "present", content]
  | none => [utf8 "absent"]

section Compute

variable (D : Type) [HashFunction D]

/-- `digest`: one digest over all parts. -/
def digestParts (parts : List (List UInt8)) : String :=
  hexDigest (digest parts.flatten : D)

def components (inputs : FingerprintInputs) : StringMap String :=
  (∅ : StringMap String)
    |>.insert "bazelDiffVersion" (digestParts D [utf8 inputs.bazelDiffVersion])
    |>.insert "bazelVersion" (digestParts D [utf8 inputs.bazelVersion])
    |>.insert "moduleLock" (digestParts D (moduleLockParts inputs.moduleLockContent))
    |>.insert "bazelrc" (digestParts D (mapParts id inputs.bazelrcContents))
    |>.insert "flags" (digestParts D (mapParts utf8 inputs.flags))

def compute (inputs : FingerprintInputs) : FingerprintResult where
  fingerprint := digestParts D (mapParts utf8 (components D inputs))
  components := components D inputs

end Compute

/-! ## What a fingerprint shows -/

/-- Two inputs that are the same but for the ends of keys and values in their maps: of the
`.bazelrc` files, or of the flags, one map becomes the other when bytes at the end of a key are
taken over by its value, or bytes at the end of a value by the next key, or back, and entries left
empty go. -/
structure OnlyEndsMoved (a b : FingerprintInputs) : Prop where
  bazelDiffVersion : a.bazelDiffVersion = b.bazelDiffVersion
  bazelVersion : a.bazelVersion = b.bazelVersion
  moduleLock : a.moduleLockContent = b.moduleLockContent
  bazelrc : Shifted (entriesOf utf8 id a.bazelrcContents) (entriesOf utf8 id b.bazelrcContents)
  flags : Shifted (entriesOf utf8 utf8 a.flags) (entriesOf utf8 utf8 b.flags)

/-- A map is hashed as its entries without boundaries. -/
theorem mapParts_flatten {V : Type} (encode : V → List UInt8) (entries : StringMap V) :
    (mapParts encode entries).flatten = written (entriesOf utf8 encode entries) := by
  rw [mapParts, written, entriesOf, List.flatMap_map, List.flatten_eq_flatMap, List.flatMap_assoc]
  simp

theorem moduleLockParts_inj {first second : Option (List UInt8)}
    (h : (moduleLockParts first).flatten = (moduleLockParts second).flatten) : first = second := by
  cases first with
  | none =>
      cases second with
      | none => rfl
      | some content => exact absurd (List.cons.inj h).1 (by decide)
  | some content =>
      cases second with
      | none => exact absurd (List.cons.inj h).1 (by decide)
      | some other =>
          have hcontent := @List.append_cancel_left _ (utf8 "present") _ _ h
          rw [List.flatten_singleton, List.flatten_singleton] at hcontent
          rw [hcontent]

section Separation

variable {D : Type} [HashFunction D]

theorem hexDigest_injective : Function.Injective (hexDigest : D → String) :=
  Hex.encode_injective.comp bytes_injective

/-- The text of a digest ends where it shows it ends. -/
theorem selfDelimiting_hexDigest :
    SelfDelimiting (fun d : D => utf8 (hexDigest d)) fun _ => True := by
  have hspelled : SelfDelimiting (fun d : D => (bytes d).flatMap Hex.spell) fun _ => True :=
    selfDelimiting_bytes.spelled Hex.spell_injective Hex.length_spell
  simpa only [hexDigest, Hex.utf8_encode] using hspelled

theorem digestParts_eq_iff (hinjective : Function.Injective (digest : List UInt8 → D))
    {parts others : List (List UInt8)} :
    digestParts D parts = digestParts D others ↔ parts.flatten = others.flatten :=
  (hexDigest_injective.comp hinjective).eq_iff

theorem components_toList (inputs : FingerprintInputs) : (components D inputs).toList =
    [("bazelDiffVersion", digestParts D [utf8 inputs.bazelDiffVersion]),
      ("bazelVersion", digestParts D [utf8 inputs.bazelVersion]),
      ("bazelrc", digestParts D (mapParts id inputs.bazelrcContents)),
      ("flags", digestParts D (mapParts utf8 inputs.flags)),
      ("moduleLock", digestParts D (moduleLockParts inputs.moduleLockContent))] :=
  rfl

/-- One component after its name, whatever follows. -/
theorem component_inj {key : String} {parts others : List (List UInt8)} {rest rest' : List UInt8}
    (hinjective : Function.Injective (digest : List UInt8 → D))
    (h : utf8 key ++ (utf8 (digestParts D parts) ++ rest) =
      utf8 key ++ (utf8 (digestParts D others) ++ rest')) :
    parts.flatten = others.flatten ∧ rest = rest' := by
  obtain ⟨hdigest, hrest⟩ :=
    selfDelimiting_hexDigest _ _ _ _ trivial trivial (List.append_cancel_left h)
  exact ⟨hinjective hdigest, hrest⟩

theorem fingerprint_eq_iff (hinjective : Function.Injective (digest : List UInt8 → D))
    (a b : FingerprintInputs) :
    (compute D a).fingerprint = (compute D b).fingerprint ↔ OnlyEndsMoved a b := by
  have hbytes : ∀ inputs : FingerprintInputs, (mapParts utf8 (components D inputs)).flatten =
      utf8 "bazelDiffVersion" ++ (utf8 (digestParts D [utf8 inputs.bazelDiffVersion]) ++
        (utf8 "bazelVersion" ++ (utf8 (digestParts D [utf8 inputs.bazelVersion]) ++
          (utf8 "bazelrc" ++ (utf8 (digestParts D (mapParts id inputs.bazelrcContents)) ++
            (utf8 "flags" ++ (utf8 (digestParts D (mapParts utf8 inputs.flags)) ++
              (utf8 "moduleLock" ++
                (utf8 (digestParts D (moduleLockParts inputs.moduleLockContent)) ++ []))))))))) := by
    intro inputs
    rw [mapParts, components_toList]
    rfl
  rw [compute, compute, digestParts_eq_iff hinjective, hbytes, hbytes]
  constructor
  · intro h
    obtain ⟨hdiff, h⟩ := component_inj hinjective h
    obtain ⟨hversion, h⟩ := component_inj hinjective h
    obtain ⟨hbazelrc, h⟩ := component_inj hinjective h
    obtain ⟨hflags, h⟩ := component_inj hinjective h
    obtain ⟨hlock, -⟩ := component_inj hinjective h
    rw [List.flatten_singleton, List.flatten_singleton] at hdiff hversion
    rw [mapParts_flatten, mapParts_flatten, ← shifted_iff] at hbazelrc hflags
    exact ⟨utf8_injective hdiff, utf8_injective hversion, moduleLockParts_inj hlock, hbazelrc, hflags⟩
  · rintro ⟨hdiff, hversion, hlock, hbazelrc, hflags⟩
    rw [shifted_iff, ← mapParts_flatten, ← mapParts_flatten] at hbazelrc hflags
    rw [hdiff, hversion, hlock, (digestParts_eq_iff hinjective).mpr hbazelrc,
      (digestParts_eq_iff hinjective).mpr hflags]

/-- Inputs that differ have different fingerprints exactly when they differ in more than where the
keys and values of their maps end. -/
theorem fingerprints_separated_iff (hinjective : Function.Injective (digest : List UInt8 → D))
    (a b : FingerprintInputs) :
    (a ≠ b → (compute D a).fingerprint ≠ (compute D b).fingerprint) ↔
      (a = b ∨ ¬ OnlyEndsMoved a b) := by
  rw [ne_eq (compute D a).fingerprint, fingerprint_eq_iff hinjective, ← or_iff_not_imp_left]

/-- Two maps that differ at one key, which is not empty. -/
def ChangedAt {V : Type} (first second : StringMap V) (key : String) : Prop :=
  key ≠ "" ∧ first[key]? ≠ second[key]? ∧ ∀ other, other ≠ key → first[other]? = second[other]?

theorem ChangedAt.not_shifted {V : Type} {encode : V → List UInt8}
    (hencode : Function.Injective encode) {first second : StringMap V} {key : String}
    (h : ChangedAt first second key) :
    ¬ Shifted (entriesOf utf8 encode first) (entriesOf utf8 encode second) := by
  obtain ⟨hkey, hchange, hrest⟩ := h
  exact not_shifted_of_change hencode (fun hnil => hkey (utf8_injective hnil)) hrest hchange

/-- Another version, another lock file, one `.bazelrc` file that changed, came or went, or one such
flag gives another fingerprint, whatever else is different. -/
theorem fingerprint_changes_for_each_component
    (hinjective : Function.Injective (digest : List UInt8 → D)) {a b : FingerprintInputs}
    (h : a.bazelDiffVersion ≠ b.bazelDiffVersion ∨ a.bazelVersion ≠ b.bazelVersion ∨
      a.moduleLockContent ≠ b.moduleLockContent ∨
      (∃ path, ChangedAt a.bazelrcContents b.bazelrcContents path) ∨
      ∃ flag, ChangedAt a.flags b.flags flag) :
    (compute D a).fingerprint ≠ (compute D b).fingerprint := by
  rw [ne_eq, fingerprint_eq_iff hinjective]
  rintro ⟨hdiff, hversion, hlock, hbazelrc, hflags⟩
  rcases h with h | h | h | ⟨path, hchange⟩ | ⟨flag, hchange⟩
  · exact h hdiff
  · exact h hversion
  · exact h hlock
  · exact hchange.not_shifted Function.injective_id hbazelrc
  · exact hchange.not_shifted utf8_injective hflags

end Separation

/-- A workspace whose `.bazelrc` tries to import a file that is there and empty. -/
def emptyImport : FingerprintInputs where
  bazelDiffVersion := "39.0.0"
  bazelVersion := "9.1.2"
  moduleLockContent := none
  bazelrcContents := Std.ExtTreeMap.ofList
    [(".bazelrc", utf8 "try-import %workspace%/common\n"), ("common", [])]
  flags := ∅

/-- A workspace whose `.bazelrc` tries to import a file that is not there, and has a line more. -/
def missingImport : FingerprintInputs where
  bazelDiffVersion := "39.0.0"
  bazelVersion := "9.1.2"
  moduleLockContent := none
  bazelrcContents := Std.ExtTreeMap.ofList
    [(".bazelrc", utf8 "try-import %workspace%/common\ncommon")]
  flags := ∅

theorem emptyImport_ne_missingImport : emptyImport ≠ missingImport := by
  intro h
  have hcommon := congrArg (fun inputs => inputs.bazelrcContents.contains "common") h
  revert hcommon
  decide +kernel

/-- A newer Bazel has a fingerprint of its own. -/
theorem fingerprints_separated_versions :
    (compute Preimage emptyImport).fingerprint ≠
      (compute Preimage { emptyImport with bazelVersion := "9.2.0" }).fingerprint := by
  have hversion : emptyImport.bazelVersion ≠ "9.2.0" := by
    decide
  exact (fingerprints_separated_iff Preimage.digest_injective _ _).mpr
    (Or.inr fun hmoved => hversion hmoved.bazelVersion)
    fun h => hversion (congrArg FingerprintInputs.bazelVersion h)

/-- The name of an imported file reads like the end of the file before it. -/
theorem missingImport_same_fingerprint :
    emptyImport ≠ missingImport ∧
      (compute Preimage emptyImport).fingerprint = (compute Preimage missingImport).fingerprint := by
  have hmoved : OnlyEndsMoved emptyImport missingImport := by
    constructor
    · rfl
    · rfl
    · rfl
    · rw [shifted_iff]
      decide +kernel
    · exact .refl _
  exact ⟨emptyImport_ne_missingImport, (fingerprint_eq_iff Preimage.digest_injective _ _).mpr hmoved⟩

end BazelDiff.Fingerprint
