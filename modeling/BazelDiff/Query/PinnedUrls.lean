/-
# URLs an integrity pins

A repository rule names where its files are fetched from, and often also what must be
found there. Two hashes cover such a rule, the digest of its definition as a target and the
hash of its record as a repository, and they frame the attributes differently and take them
in different orders. Both leave out the same URLs: those whose content an integrity pins.
-/

import BazelDiff.Hash.Definition
import BazelDiff.Lib.Wire
import BazelDiff.Query.Repositories

namespace BazelDiff

open Text HashFunction

section Definition

-- The protobuf encoding of an attribute.
variable (encode : Attribute → List UInt8)

/-- The bytes of a repository's definition. -/
def repositoryDefinition (repository : Repository) (files : RepositoryFiles) : List UInt8 :=
  let pinned := repository.attributes.any fun attr =>
    (attr.name == "sha256" || attr.name == "integrity") && attr.stringValue.any (· ≠ "")
  utf8 (repository.repoRuleName.getD "") ++ [0] ++
    (repository.attributes.flatMap fun attr =>
      if pinned ∧ (attr.name = "url" ∨ attr.name = "urls") then []
      else Varint.delimit
        (encode ((withoutIntegrityPinnedUrls attr repository.attributes).getD attr))) ++
    [0] ++ utf8 (files.treeHash.getD "") ++ [0] ++ utf8 (files.inputsHash.getD "")

variable (D : Type) [HashFunction D]

/-- `repository_definition_hash`. -/
def repositoryDefinitionHash (repository : Repository) (files : RepositoryFiles) : String :=
  Hex.encode (bytes (digest (repositoryDefinition encode repository files) : D))

end Definition

/-! ## URLs and what pins them -/

/-- What the integrities among a repository's attributes pin. -/
structure Pins where
  /-- The download, by `sha256` or `integrity`. -/
  download : Bool
  /-- The module file, by `remote_module_file_integrity`. -/
  moduleFile : Bool
  /-- The files `remote_file_integrity` has an integrity for. -/
  files : List String

def pinsOf (attributes : List Attribute) : Pins where
  download := attributes.any fun attr =>
    (attr.name == "sha256" || attr.name == "integrity") && attr.stringValue.any (· ≠ "")
  moduleFile := attributes.any fun attr =>
    attr.name == "remote_module_file_integrity" && attr.stringValue.any (· ≠ "")
  files := (((attributes.filter fun attr => attr.name = "remote_file_integrity").flatMap
    (·.stringDictValue)).filter (·.2 ≠ "")).map (·.1)

/-- An attribute with every URL value blank. -/
def withoutUrls (attr : Attribute) : Attribute :=
  if attr.name = "url" ∨ attr.name = "urls" then
    { attr with stringValue := none, stringListValue := [] }
  else if attr.name = "remote_patches" then
    { attr with stringDictValue := attr.stringDictValue.map fun entry => ("", entry.2) }
  else if attr.name = "remote_module_file_urls" then
    { attr with stringListValue := [] }
  else if attr.name = "remote_file_urls" then
    { attr with stringListDictValue := attr.stringListDictValue.map fun entry => (entry.1, []) }
  else attr

/-- The URL values of an attribute that nothing pins. A patch is pinned by the integrity its
URL is the key of. -/
def unpinnedUrls (pins : Pins) (attr : Attribute) : List (Option String × List String) :=
  if attr.name = "url" ∨ attr.name = "urls" then
    if pins.download then [] else [(attr.stringValue, attr.stringListValue)]
  else if attr.name = "remote_patches" then
    (attr.stringDictValue.filter fun entry => entry.2 = "").map fun entry => (some entry.1, [])
  else if attr.name = "remote_module_file_urls" then
    if pins.moduleFile then [] else [(none, attr.stringListValue)]
  else if attr.name = "remote_file_urls" then
    (attr.stringListDictValue.filter fun entry => entry.1 ∉ pins.files).map fun entry =>
      (none, entry.2)
  else []

/-- The attribute as both hashes see it, by what is pinned. -/
def strip (pins : Pins) (attr : Attribute) : Attribute :=
  if attr.name = "remote_patches" then
    { attr with
      stringDictValue := attr.stringDictValue.map fun entry =>
        if entry.2 ≠ "" then ("", entry.2) else entry }
  else if attr.name = "remote_module_file_urls" then
    if pins.moduleFile then { attr with stringListValue := [] } else attr
  else if attr.name = "remote_file_urls" then
    { attr with
      stringListDictValue := attr.stringListDictValue.map fun entry =>
        if pins.files.contains entry.1 then (entry.1, []) else entry }
  else attr

theorem withoutIntegrityPinnedUrls_getD (attr : Attribute) (attributes : List Attribute) :
    (withoutIntegrityPinnedUrls attr attributes).getD attr = strip (pinsOf attributes) attr := by
  rw [withoutIntegrityPinnedUrls, strip]
  split
  · rfl
  · split
    · rfl
    · split
      · rfl
      · rfl

@[simp]
theorem name_withoutUrls (attr : Attribute) : (withoutUrls attr).name = attr.name := by
  rw [withoutUrls]
  split_ifs <;> rfl

@[simp]
theorem uninspected_withoutUrls (attr : Attribute) :
    (withoutUrls attr).uninspected = attr.uninspected := by
  rw [withoutUrls]
  split_ifs <;> rfl

@[simp]
theorem name_strip (pins : Pins) (attr : Attribute) : (strip pins attr).name = attr.name := by
  rw [strip]
  split_ifs <;> rfl

@[simp]
theorem uninspected_strip (pins : Pins) (attr : Attribute) :
    (strip pins attr).uninspected = attr.uninspected := by
  rw [strip]
  split_ifs <;> rfl

/-- An attribute that carries no URLs is not touched. -/
theorem withoutUrls_of_name {attr : Attribute}
    (h : attr.name ∉ ["url", "urls", "remote_patches", "remote_module_file_urls",
      "remote_file_urls"]) : withoutUrls attr = attr := by
  simp only [List.mem_cons, List.not_mem_nil, or_false, not_or] at h
  simp [withoutUrls, h]

/-- No integrity is a URL, so blank URLs leave the same things pinned. -/
theorem pinsOf_map_withoutUrls (attributes : List Attribute) :
    pinsOf (attributes.map withoutUrls) = pinsOf attributes := by
  have hunchanged : ∀ {attr : Attribute}, attr.name = "sha256" ∨ attr.name = "integrity" ∨
      attr.name = "remote_module_file_integrity" ∨ attr.name = "remote_file_integrity" →
      withoutUrls attr = attr := by
    intro attr h
    apply withoutUrls_of_name
    rcases h with h | h | h | h <;> simp [h]
  have hvalue : ∀ (named : String → Bool) (attr : Attribute),
      (named attr.name → withoutUrls attr = attr) →
      (named attr.name && (withoutUrls attr).stringValue.any (· ≠ "")) =
        (named attr.name && attr.stringValue.any (· ≠ "")) := by
    intro named attr h
    cases hname : named attr.name with
    | true => rw [h hname]
    | false => rfl
  have hdownload := fun attr =>
    hvalue (fun name => name == "sha256" || name == "integrity") attr fun h =>
      hunchanged (by simpa [or_assoc] using Or.inl h)
  have hmodule := fun attr =>
    hvalue (fun name => name == "remote_module_file_integrity") attr fun h =>
      hunchanged (by simp [beq_iff_eq.mp h])
  have hfiles : ((attributes.map withoutUrls).filter fun attr =>
      attr.name = "remote_file_integrity") =
        attributes.filter fun attr => attr.name = "remote_file_integrity" := by
    rw [List.filter_map]
    simp only [Function.comp_def, name_withoutUrls]
    conv_rhs => rw [← List.map_id (attributes.filter _)]
    apply List.map_congr_left
    intro attr hattr
    exact hunchanged (by simp [of_decide_eq_true (List.mem_filter.mp hattr).2])
  rw [pinsOf, pinsOf, hfiles]
  simp only [List.any_map, Function.comp_def, name_withoutUrls, hdownload, hmodule]

/-- Changing URL values only, nothing becomes pinned and nothing stops being pinned. -/
theorem pinsOf_eq {pairs : List (Attribute × Attribute)}
    (h : ∀ p ∈ pairs, withoutUrls p.1 = withoutUrls p.2) :
    pinsOf (pairs.map (·.1)) = pinsOf (pairs.map (·.2)) := by
  rw [← pinsOf_map_withoutUrls, ← pinsOf_map_withoutUrls (pairs.map (·.2)), List.map_map,
    List.map_map]
  exact congrArg pinsOf (List.map_congr_left h)

/-! ## What blanking the pinned URLs keeps -/

/-- Blank the pinned values of two lists that agree on everything else, and they are equal
when their unpinned values are. -/
theorem map_blank_eq_iff {ε κ ν : Type} {kept : ε → κ} {value : ε → ν} {blank : ε → ε}
    {free : ε → Bool} (hfree : ∀ e e', kept e = kept e' → free e = free e')
    (hblank : ∀ e e', kept e = kept e' → (blank e = blank e' ↔ (free e → value e = value e')))
    {entries entries' : List ε} (h : entries.map kept = entries'.map kept) :
    entries.map blank = entries'.map blank ↔
      (entries.filter free).map value = (entries'.filter free).map value := by
  induction entries generalizing entries' with
  | nil =>
      rw [List.map_nil] at h
      simp [List.map_eq_nil_iff.mp h.symm]
  | cons e entries ih =>
      cases entries' with
      | nil => exact absurd h (List.cons_ne_nil _ _)
      | cons e' entries' =>
          rw [List.map_cons, List.map_cons, List.cons.injEq] at h
          rw [List.map_cons, List.map_cons, List.cons.injEq, hblank e e' h.1, ih h.2,
            List.filter_cons, List.filter_cons, ← hfree e e' h.1]
          cases free e with
          | true => simp
          | false => simp

/-- A patch is kept as its integrity, or as its URL when it has none. -/
theorem map_patches_eq_iff {patches patches' : List (String × String)}
    (h : (patches.map fun entry => ("", entry.2)) = patches'.map fun entry => ("", entry.2)) :
    (patches.map fun entry => if entry.2 ≠ "" then ("", entry.2) else entry) =
        (patches'.map fun entry => if entry.2 ≠ "" then ("", entry.2) else entry) ↔
      ((patches.filter fun entry => entry.2 = "").map fun entry =>
          (some entry.1, ([] : List String))) =
        (patches'.filter fun entry => entry.2 = "").map fun entry => (some entry.1, []) := by
  apply map_blank_eq_iff _ _ h
  · rintro ⟨url, integrity⟩ ⟨url', integrity'⟩ hkept
    obtain rfl : integrity = integrity' := (Prod.mk.inj hkept).2
    rfl
  · rintro ⟨url, integrity⟩ ⟨url', integrity'⟩ hkept
    obtain rfl : integrity = integrity' := (Prod.mk.inj hkept).2
    by_cases hpinned : integrity = "" <;> simp [hpinned]

/-- A file is kept without its URLs when it is pinned. -/
theorem map_files_eq_iff {pinned : List String} {files files' : List (String × List String)}
    (h : (files.map fun entry => (entry.1, ([] : List String))) =
      files'.map fun entry => (entry.1, [])) :
    (files.map fun entry => if pinned.contains entry.1 then (entry.1, []) else entry) =
        (files'.map fun entry => if pinned.contains entry.1 then (entry.1, []) else entry) ↔
      ((files.filter fun entry => entry.1 ∉ pinned).map fun entry =>
          ((none : Option String), entry.2)) =
        (files'.filter fun entry => entry.1 ∉ pinned).map fun entry => (none, entry.2) := by
  apply map_blank_eq_iff _ _ h
  · rintro ⟨file, urls⟩ ⟨file', urls'⟩ hkept
    obtain rfl : file = file' := (Prod.mk.inj hkept).1
    rfl
  · rintro ⟨file, urls⟩ ⟨file', urls'⟩ hkept
    obtain rfl : file = file' := (Prod.mk.inj hkept).1
    by_cases hpinned : file ∈ pinned <;> simp [hpinned]

/-- Of two attributes that differ in URL values only, the stripped ones are equal when the
unpinned URL values are; a pinned download is not stripped but skipped. -/
theorem strip_eq_iff {pins : Pins} {attr attr' : Attribute}
    (h : withoutUrls attr = withoutUrls attr')
    (hkept : ¬ (pins.download ∧ (attr.name = "url" ∨ attr.name = "urls"))) :
    strip pins attr = strip pins attr' ↔ unpinnedUrls pins attr = unpinnedUrls pins attr' := by
  have hname : attr.name = attr'.name := by
    rw [← name_withoutUrls attr, h, name_withoutUrls]
  obtain ⟨name, text, list, dict, unary, keyed, labelLists, listDict, uninspected⟩ := attr
  obtain ⟨name', text', list', dict', unary', keyed', labelLists', listDict', uninspected'⟩ := attr'
  obtain rfl : name = name' := hname
  by_cases hurl : name = "url" ∨ name = "urls"
  · have hdownload : ¬ pins.download = true := fun hpinned => hkept ⟨hpinned, hurl⟩
    simp only [withoutUrls, if_pos hurl, Attribute.mk.injEq] at h
    rcases hurl with rfl | rfl
    · simp [strip, unpinnedUrls, hdownload, h]
    · simp [strip, unpinnedUrls, hdownload, h]
  by_cases hpatches : name = "remote_patches"
  · subst hpatches
    simp only [withoutUrls, if_neg hurl, if_true, Attribute.mk.injEq, true_and] at h
    simpa [strip, unpinnedUrls, h] using map_patches_eq_iff h.2.2.1
  by_cases hmodule : name = "remote_module_file_urls"
  · subst hmodule
    simp only [withoutUrls, if_neg hurl, if_neg hpatches, if_true, Attribute.mk.injEq,
      true_and] at h
    cases hpinned : pins.moduleFile with
    | true => simp [strip, unpinnedUrls, hpinned, h]
    | false => simp [strip, unpinnedUrls, hpinned, h]
  by_cases hfiles : name = "remote_file_urls"
  · subst hfiles
    simp only [withoutUrls, if_neg hurl, if_neg hpatches, if_neg hmodule, if_true,
      Attribute.mk.injEq, true_and] at h
    simpa [strip, unpinnedUrls, h] using
      @map_files_eq_iff pins.files _ _ h.2.2.2.2.2.2.1
  · simp only [withoutUrls, if_neg hurl, if_neg hpatches, if_neg hmodule, if_neg hfiles] at h
    rw [h]
    exact iff_of_true rfl rfl

/-! ## Encodings that show where an attribute ends -/

/-- Nothing, or the start of another attribute. -/
def AtAttribute (encode : Attribute → List UInt8) (rest : List UInt8) : Prop :=
  rest = [] ∨ ∃ attr, encode attr <+: rest

/-- An encoding writes the name of an attribute first, so an attribute ends before the next one
or at the end: for its name and the fields nothing here reads, it can be told from what comes
after it. -/
def Separable (encode : Attribute → List UInt8) : Prop :=
  ∀ attr attr' rest rest', attr.name = attr'.name → attr.uninspected = attr'.uninspected →
    AtAttribute encode rest → AtAttribute encode rest' →
    encode attr ++ rest = encode attr' ++ rest' → attr = attr' ∧ rest = rest'

section Separable

variable {encode : Attribute → List UInt8}

/-- Attributes framed by their lengths can be told from anything. -/
theorem Separable.delimited (h : Separable encode) :
    Separable fun attr => Varint.delimit (encode attr) := by
  intro attr attr' rest rest' hname huninspected _ _ heq
  obtain ⟨hencode, hrest⟩ := Varint.selfDelimiting_delimit _ _ _ _ trivial trivial heq
  have hattr := h attr attr' [] [] hname huninspected (Or.inl rfl) (Or.inl rfl)
    (by rw [hencode])
  exact ⟨hattr.1, hrest⟩

variable (encode) in
/-- The bytes of one attribute in a hash that leaves out what `skipped` names. -/
def contribution (skipped : String → Prop) [DecidablePred skipped] (pins : Pins)
    (attr : Attribute) : List UInt8 :=
  if skipped attr.name then []
  else if pins.download ∧ (attr.name = "url" ∨ attr.name = "urls") then []
  else encode (strip pins attr)

variable {skipped : String → Prop} [DecidablePred skipped] {pins : Pins}

theorem atAttribute_flatMap (attributes : List Attribute) :
    AtAttribute encode (attributes.flatMap (contribution encode skipped pins)) := by
  induction attributes with
  | nil => exact Or.inl rfl
  | cons attr attributes ih =>
      rw [List.flatMap_cons, contribution]
      split_ifs with hskipped hpinned
      · exact ih
      · exact ih
      · exact Or.inr ⟨strip pins attr, List.prefix_append _ _⟩

/-- One step of reading back: equal contributions of two attributes that differ in URL values
only, whatever attributes follow, come from equal unpinned URL values. -/
theorem contribution_append_eq_iff (hencode : Separable encode) {attr attr' : Attribute}
    (h : withoutUrls attr = withoutUrls attr') {rest rest' : List UInt8}
    (hrest : AtAttribute encode rest) (hrest' : AtAttribute encode rest') :
    contribution encode skipped pins attr ++ rest =
        contribution encode skipped pins attr' ++ rest' ↔
      (¬ skipped attr.name → unpinnedUrls pins attr = unpinnedUrls pins attr') ∧
        rest = rest' := by
  have hname : attr.name = attr'.name := by
    rw [← name_withoutUrls attr, h, name_withoutUrls]
  have huninspected : attr.uninspected = attr'.uninspected := by
    rw [← uninspected_withoutUrls attr, h, uninspected_withoutUrls]
  rw [contribution, contribution, ← hname]
  by_cases hskipped : skipped attr.name
  · simp [hskipped]
  by_cases hpinned : pins.download ∧ (attr.name = "url" ∨ attr.name = "urls")
  · have hnone : ∀ attr : Attribute, attr.name = "url" ∨ attr.name = "urls" →
        unpinnedUrls pins attr = [] := by
      intro attr hattr
      rw [unpinnedUrls, if_pos hattr, if_pos hpinned.1]
    simp [hskipped, hpinned, hnone attr hpinned.2, hnone attr' (hname ▸ hpinned.2)]
  rw [if_neg hskipped, if_neg hpinned, if_neg hskipped, if_neg hpinned, ← strip_eq_iff h hpinned]
  constructor
  · intro heq
    have hstrip := hencode _ _ _ _ (by simpa using hname) (by simpa using huninspected)
      hrest hrest' heq
    exact ⟨fun _ => hstrip.1, hstrip.2⟩
  · rintro ⟨hstrip, rfl⟩
    rw [hstrip hskipped]

/-- The attributes before and after a change of URL values are hashed alike when no unpinned
URL value of an attribute that counts has changed. -/
theorem contributions_eq_iff (hencode : Separable encode) {pairs : List (Attribute × Attribute)}
    (h : ∀ p ∈ pairs, withoutUrls p.1 = withoutUrls p.2) :
    (pairs.map (·.1)).flatMap (contribution encode skipped pins) =
        (pairs.map (·.2)).flatMap (contribution encode skipped pins) ↔
      ∀ p ∈ pairs, ¬ skipped p.1.name → unpinnedUrls pins p.1 = unpinnedUrls pins p.2 := by
  induction pairs with
  | nil => simp
  | cons p pairs ih =>
      rw [List.forall_mem_cons] at h
      rw [List.map_cons, List.map_cons, List.flatMap_cons, List.flatMap_cons,
        contribution_append_eq_iff hencode h.1 (atAttribute_flatMap _) (atAttribute_flatMap _),
        ih h.2, List.forall_mem_cons]

end Separable

/-! ## Both hashes -/

section Hashes

variable {encode : Attribute → List UInt8}

/-- A list that is in order already is what sorting makes of it. -/
theorem hashedAttributes_eq_insertionSort (attributes : List Attribute) :
    hashedAttributes attributes = attributes.insertionSort fun a b => a.name ≤ b.name := by
  rw [hashedAttributes]
  split_ifs with hchain
  · exact (List.Pairwise.insertionSort_eq (List.isChain_iff_pairwise.mp hchain)).symm
  · rfl

/-- Attributes are sorted by their names, which a change of URL values keeps. -/
theorem exists_perm_hashedAttributes {pairs : List (Attribute × Attribute)}
    (h : ∀ p ∈ pairs, p.1.name = p.2.name) :
    ∃ sorted : List (Attribute × Attribute), sorted.Perm pairs ∧
      hashedAttributes (pairs.map (·.1)) = sorted.map (·.1) ∧
      hashedAttributes (pairs.map (·.2)) = sorted.map (·.2) := by
  refine ⟨pairs.insertionSort fun p q => p.1.name ≤ q.1.name, List.perm_insertionSort _ _, ?_, ?_⟩
  · rw [hashedAttributes_eq_insertionSort]
    apply Eq.symm
    apply List.map_insertionSort
    intro p _ q _
    exact Iff.rfl
  · rw [hashedAttributes_eq_insertionSort]
    apply Eq.symm
    apply List.map_insertionSort
    intro p hp q hq
    rw [h p hp, h q hq]

theorem repositoryDefinition_eq (repository : Repository) (files : RepositoryFiles) :
    repositoryDefinition encode repository files =
      utf8 (repository.repoRuleName.getD "") ++ [0] ++
        (repository.attributes.flatMap
          (contribution (fun attr => Varint.delimit (encode attr)) (fun _ => False)
            (pinsOf repository.attributes))) ++
        [0] ++ utf8 (files.treeHash.getD "") ++ [0] ++ utf8 (files.inputsHash.getD "") := by
  simp only [repositoryDefinition, withoutIntegrityPinnedUrls_getD]
  rfl

theorem hashAttribute_eq_contribution (ignored : StringSet) (attributes : List Attribute) :
    hashAttribute encode ignored (pinsOf attributes).download (some attributes) =
      contribution encode (fun name => name = "generator_location" ∨ ignored.contains name)
        (pinsOf attributes) := by
  funext attr
  rw [hashAttribute, contribution, Option.bind_some, withoutIntegrityPinnedUrls_getD]

theorem ruleDefinition_eq {rule : Rule} (h : hasPrefix "//external:" rule.name)
    (ignored : StringSet) :
    ruleDefinition encode rule ignored =
      utf8 rule.ruleClass ++ utf8 (targetLabel rule.name) ++
        ((rule.skylarkEnvironmentHashCode.map utf8).getD []) ++
        (hashedAttributes rule.attributes).flatMap
          (contribution encode (fun name => name = "generator_location" ∨ ignored.contains name)
            (pinsOf rule.attributes)) := by
  have hpins : pinsDownloadContent rule = (pinsOf rule.attributes).download := by
    rw [pinsDownloadContent, h, Bool.true_and, pinsOf]
  rw [ruleDefinition, if_pos h, hpins, hashAttribute_eq_contribution]

variable {pairs : List (Attribute × Attribute)}

/-- The digest of a repository rule's definition changes with an unpinned URL value of an
attribute that is not ignored, and with no other URL value. -/
theorem ruleDefinition_eq_iff (hencode : Separable encode)
    (hurls : ∀ p ∈ pairs, withoutUrls p.1 = withoutUrls p.2) {rule : Rule}
    (h : hasPrefix "//external:" rule.name) (ignored : StringSet) :
    ruleDefinition encode { rule with attributes := pairs.map (·.1) } ignored =
        ruleDefinition encode { rule with attributes := pairs.map (·.2) } ignored ↔
      ∀ p ∈ pairs, p.1.name ∉ ignored →
        unpinnedUrls (pinsOf (pairs.map (·.1))) p.1 =
          unpinnedUrls (pinsOf (pairs.map (·.1))) p.2 := by
  have hnames : ∀ p ∈ pairs, p.1.name = p.2.name := by
    intro p hp
    rw [← name_withoutUrls p.1, hurls p hp, name_withoutUrls]
  obtain ⟨sorted, hperm, hbefore, hafter⟩ := exists_perm_hashedAttributes hnames
  rw [ruleDefinition_eq (by exact h), ruleDefinition_eq (by exact h)]
  simp only [hbefore, hafter, ← pinsOf_eq hurls]
  rw [List.append_cancel_left_eq,
    contributions_eq_iff hencode fun p hp => hurls p (hperm.mem_iff.mp hp)]
  constructor
  · intro heq p hp hignored
    by_cases hgenerator : p.1.name = "generator_location"
    · have hnone : ∀ attr : Attribute, attr.name = "generator_location" →
          unpinnedUrls (pinsOf (pairs.map (·.1))) attr = [] := by
        intro attr hattr
        simp [unpinnedUrls, hattr]
      rw [hnone p.1 hgenerator, hnone p.2 (hnames p hp ▸ hgenerator)]
    · apply heq p (hperm.mem_iff.mpr hp)
      rw [not_or]
      exact ⟨hgenerator, by simpa using hignored⟩
  · intro heq p hp hskipped
    rw [not_or] at hskipped
    exact heq p (hperm.mem_iff.mp hp) (by simpa using hskipped.2)

/-- The hash of a repository's definition changes with an unpinned URL value, and with no
other URL value. -/
theorem repositoryDefinition_eq_iff (hencode : Separable encode)
    (hurls : ∀ p ∈ pairs, withoutUrls p.1 = withoutUrls p.2) (repository : Repository)
    (files : RepositoryFiles) :
    repositoryDefinition encode { repository with attributes := pairs.map (·.1) } files =
        repositoryDefinition encode { repository with attributes := pairs.map (·.2) } files ↔
      ∀ p ∈ pairs, unpinnedUrls (pinsOf (pairs.map (·.1))) p.1 =
        unpinnedUrls (pinsOf (pairs.map (·.1))) p.2 := by
  rw [repositoryDefinition_eq, repositoryDefinition_eq]
  simp only [← pinsOf_eq hurls]
  rw [List.append_cancel_right_eq, List.append_cancel_right_eq, List.append_cancel_right_eq,
    List.append_cancel_right_eq, List.append_cancel_left_eq,
    contributions_eq_iff hencode.delimited hurls]
  simp only [not_false_iff, true_implies]

end Hashes

/-! ## The encoding of an attribute -/

/-- An entry of a dictionary of texts: its key and its value. -/
def dictEntry (entry : String × String) : List UInt8 :=
  [Wire.Field.mk 1 (utf8 entry.1), Wire.Field.mk 2 (utf8 entry.2)].flatMap Wire.Field.encode

/-- An entry of a dictionary of lists: its key and each of its values. -/
def listDictEntry (entry : String × List String) : List UInt8 :=
  (Wire.Field.mk 1 (utf8 entry.1) ::
    entry.2.map fun value => Wire.Field.mk 2 (utf8 value)).flatMap Wire.Field.encode

/-- What the fields of an attribute carry, by their numbers; the name has a field of its own. -/
def attributeValues (attr : Attribute) (number : Nat) : List (List UInt8) :=
  match number with
  | 5 => attr.stringValue.toList.map utf8
  | 6 => attr.stringListValue.map utf8
  | 8 => attr.stringDictValue.map dictEntry
  | 10 => attr.labelListDictValue.map listDictEntry
  | 11 => attr.stringListDictValue.map listDictEntry
  | 19 => attr.labelDictUnaryValue.map dictEntry
  | 22 => attr.labelKeyedStringDictValue.map dictEntry
  | _ => []

def attributeNumbers : List Nat :=
  [5, 6, 8, 10, 11, 19, 22]

/-- The wire format of an attribute. -/
def encodeAttribute (attr : Attribute) : List UInt8 :=
  Wire.Field.encode ⟨1, utf8 attr.name⟩ ++ attr.uninspected ++
    (Wire.message attributeNumbers (attributeValues attr)).flatMap Wire.Field.encode

theorem dictEntry_injective : Function.Injective dictEntry := by
  rintro ⟨key, value⟩ ⟨key', value'⟩ h
  have hfields := Wire.flatMap_encode_injective h
  simp only [List.cons.injEq, Wire.Field.mk.injEq, utf8_injective.eq_iff] at hfields
  simp [hfields]

theorem listDictEntry_injective : Function.Injective listDictEntry := by
  rintro ⟨key, values⟩ ⟨key', values'⟩ h
  have hfields := Wire.flatMap_encode_injective h
  simp only [List.cons.injEq, Wire.Field.mk.injEq, utf8_injective.eq_iff] at hfields
  have hvalue : Function.Injective fun value => Wire.Field.mk 2 (utf8 value) := by
    intro value value' heq
    exact utf8_injective (Wire.Field.mk.inj heq).2
  rw [hfields.1.2, hvalue.list_map hfields.2]

theorem attributeValues_inj {attr attr' : Attribute} (hname : attr.name = attr'.name)
    (huninspected : attr.uninspected = attr'.uninspected)
    (h : ∀ number ∈ attributeNumbers, attributeValues attr number = attributeValues attr' number) :
    attr = attr' := by
  obtain ⟨name, text, list, dict, unary, keyed, labelLists, listDict, uninspected⟩ := attr
  obtain ⟨name', text', list', dict', unary', keyed', labelLists', listDict', uninspected'⟩ := attr'
  simp only [attributeNumbers, List.forall_mem_cons, attributeValues] at h
  obtain ⟨h5, h6, h8, h10, h11, h19, h22, -⟩ := h
  have htext : text = text' := by
    have hlist := utf8_injective.list_map h5
    cases text <;> cases text' <;> simp_all
  rw [Attribute.mk.injEq]
  exact ⟨hname, htext, utf8_injective.list_map h6, dictEntry_injective.list_map h8,
    dictEntry_injective.list_map h19, dictEntry_injective.list_map h22,
    listDictEntry_injective.list_map h10, listDictEntry_injective.list_map h11, huninspected⟩

/-- The wire format writes the name first, and every attribute has one. -/
theorem separable_encodeAttribute : Separable encodeAttribute := by
  have hatField : ∀ {rest : List UInt8}, AtAttribute encodeAttribute rest →
      Wire.AtField 1 rest := by
    rintro rest (rfl | ⟨attr, hattr⟩)
    · exact Or.inl rfl
    · rw [encodeAttribute, List.append_assoc] at hattr
      exact Or.inr ⟨utf8 attr.name, (List.prefix_append _ _).trans hattr⟩
  have hnumber : ∀ (attr : Attribute),
      ∀ field ∈ Wire.message attributeNumbers (attributeValues attr), field.number ≠ 1 := by
    intro attr field hfield hone
    have hmem := Wire.number_mem hfield
    rw [hone] at hmem
    exact absurd hmem (by decide)
  intro attr attr' rest rest' hname huninspected hrest hrest' h
  simp only [encodeAttribute, hname, huninspected, List.append_assoc,
    List.append_cancel_left_eq] at h
  obtain ⟨hfields, hend⟩ := Wire.flatMap_encode_append_inj (hnumber attr) (hnumber attr')
    (hatField hrest) (hatField hrest') h
  exact ⟨attributeValues_inj hname huninspected (Wire.message_inj (by decide) hfields), hend⟩

/-! ## The URLs both hashes read -/

section Digests

variable {encode : Attribute → List UInt8} {pairs : List (Attribute × Attribute)}

variable {D : Type} [HashFunction D]

/-- The URL values that matter are the same for both hashes, except that the digest of the
rule leaves out the attributes it is told to ignore. -/
theorem pinned_urls_never_matter (hdigest : Function.Injective (digest : List UInt8 → D))
    (hencode : Separable encode) (hurls : ∀ p ∈ pairs, withoutUrls p.1 = withoutUrls p.2) :
    (∀ (rule : Rule) (ignored : StringSet), hasPrefix "//external:" rule.name →
      ((ruleDefinitionDigest encode { rule with attributes := pairs.map (·.1) } ignored : D) =
          ruleDefinitionDigest encode { rule with attributes := pairs.map (·.2) } ignored ↔
        ∀ p ∈ pairs, p.1.name ∉ ignored →
          unpinnedUrls (pinsOf (pairs.map (·.1))) p.1 =
            unpinnedUrls (pinsOf (pairs.map (·.2))) p.2)) ∧
      ∀ (repository : Repository) (files : RepositoryFiles),
        repositoryDefinitionHash encode D { repository with attributes := pairs.map (·.1) } files =
            repositoryDefinitionHash encode D { repository with attributes := pairs.map (·.2) }
              files ↔
          ∀ p ∈ pairs, unpinnedUrls (pinsOf (pairs.map (·.1))) p.1 =
            unpinnedUrls (pinsOf (pairs.map (·.2))) p.2 := by
  rw [← pinsOf_eq hurls]
  constructor
  · intro rule ignored h
    rw [ruleDefinitionDigest, ruleDefinitionDigest, hdigest.eq_iff]
    exact ruleDefinition_eq_iff hencode hurls h ignored
  · intro repository files
    rw [repositoryDefinitionHash, repositoryDefinitionHash, Hex.encode_injective.eq_iff,
      bytes_injective.eq_iff, hdigest.eq_iff]
    exact repositoryDefinition_eq_iff hencode hurls repository files

end Digests

/-- An archive that moves to another mirror, with a pinned patch that moves along and a patch that
nothing pins. -/
def mirrorMove (patch patch' : String) : List (Attribute × Attribute) :=
  [({ name := "remote_patches",
      stringDictValue := [("https://a/fix.patch", "sha256-x"), (patch, "")] },
    { name := "remote_patches",
      stringDictValue := [("https://b/fix.patch", "sha256-x"), (patch', "")] }),
   ({ name := "sha256", stringValue := some "0f" }, { name := "sha256", stringValue := some "0f" }),
   ({ name := "urls", stringListValue := ["https://a/z.tar"] },
    { name := "urls", stringListValue := ["https://b/z.tar", "https://a/z.tar"] })]

/-- The rule of an archive with no attributes yet. -/
def archiveRule : Rule :=
  { name := "//external:zlib", ruleClass := "http_archive" }

/-- With the pinned URLs alone nothing changes; with the patch that nothing pins both hashes do. -/
theorem pinned_urls_never_matter_mirrorMove :
    ((ruleDefinitionDigest encodeAttribute
          { archiveRule with attributes := (mirrorMove "p" "p").map (·.1) } ∅ : Preimage) =
        ruleDefinitionDigest encodeAttribute
          { archiveRule with attributes := (mirrorMove "p" "p").map (·.2) } ∅ ∧
      repositoryDefinitionHash encodeAttribute Preimage
          { attributes := (mirrorMove "p" "p").map (·.1) } {} =
        repositoryDefinitionHash encodeAttribute Preimage
          { attributes := (mirrorMove "p" "p").map (·.2) } {}) ∧
    (ruleDefinitionDigest encodeAttribute
          { archiveRule with attributes := (mirrorMove "p" "q").map (·.1) } ∅ : Preimage) ≠
        ruleDefinitionDigest encodeAttribute
          { archiveRule with attributes := (mirrorMove "p" "q").map (·.2) } ∅ ∧
      repositoryDefinitionHash encodeAttribute Preimage
          { attributes := (mirrorMove "p" "q").map (·.1) } {} ≠
        repositoryDefinitionHash encodeAttribute Preimage
          { attributes := (mirrorMove "p" "q").map (·.2) } {} := by
  have hmove := @pinned_urls_never_matter encodeAttribute (mirrorMove "p" "p") Preimage _
    Preimage.digest_injective separable_encodeAttribute (by decide)
  have hchange := @pinned_urls_never_matter encodeAttribute (mirrorMove "p" "q") Preimage _
    Preimage.digest_injective separable_encodeAttribute (by decide)
  refine ⟨⟨(hmove.1 archiveRule ∅ (by decide)).mpr ?_, (hmove.2 {} {}).mpr (by decide)⟩, ?_, ?_⟩
  · intro p hp _
    revert p
    decide
  · intro heq
    have hpatch := (hchange.1 archiveRule ∅ (by decide)).mp heq _ List.mem_cons_self (by decide)
    revert hpatch
    decide
  · intro heq
    have hpatch := (hchange.2 {} {}).mp heq _ List.mem_cons_self
    revert hpatch
    decide

/-- An attribute the digest of a rule is told to ignore may change an unpinned URL, unseen. -/
theorem ignored_url_unseen :
    ∃ (pairs : List (Attribute × Attribute)) (ignored : StringSet),
      (∀ p ∈ pairs, withoutUrls p.1 = withoutUrls p.2) ∧
      (∀ p ∈ pairs, unpinnedUrls (pinsOf (pairs.map (·.1))) p.1 ≠
        unpinnedUrls (pinsOf (pairs.map (·.2))) p.2) ∧ pairs ≠ [] ∧
      (ruleDefinitionDigest encodeAttribute
          { archiveRule with attributes := pairs.map (·.1) } ignored : Preimage) =
        ruleDefinitionDigest encodeAttribute
          { archiveRule with attributes := pairs.map (·.2) } ignored := by
  refine ⟨[({ name := "urls", stringListValue := ["https://a/z.tar"] },
    { name := "urls", stringListValue := ["https://b/z.tar"] })],
    (∅ : StringSet).insert "urls", by decide, by decide, by decide, ?_⟩
  rw [ruleDefinitionDigest, ruleDefinitionDigest]
  apply congrArg
  apply (ruleDefinition_eq_iff separable_encodeAttribute (by decide) (by decide) _).mpr
  intro p hp hignored
  obtain rfl := List.mem_singleton.mp hp
  exact absurd Std.ExtTreeSet.mem_insert_self hignored

end BazelDiff
