/-
# Configured edges and the instances they name

A configured target and an edge to it are named in two places: the decoder names the
target, and the edge is encoded from the input Bazel reports. Both read an empty checksum
as no configuration. Only the decoder reads the checksum of the null configuration so,
and a suffix that is not hexadecimal is part of a label.
-/

import BazelDiff.Hash.Traversal
import BazelDiff.Query.Cquery

namespace BazelDiff

open Text

/-- A suffix that is no checksum belongs to the label. -/
theorem targetLabel_configuredKey_of_not_hex {label checksum : String}
    (hbar : '|' ∉ checksum.toList) (hhex : checksum.toList.all isAsciiHexdigit = false) :
    targetLabel (configuredKey label checksum) = configuredKey label checksum := by
  have hcut : rsplitOnce configuredSeparator (configuredKey label checksum) =
      some (label, checksum) := by
    have hlist : (configuredKey label checksum).toList =
        label.toList ++ '|' :: checksum.toList := by
      simp [configuredKey]
    rw [rsplitOnce, hlist, configuredSeparator, cutLast_append_cons hbar]
    simp
  rw [targetLabel, splitConfigured, hcut]
  simp [hhex]

theorem configuredKey_ne_label (label checksum : String) : configuredKey label checksum ≠ label := by
  intro h
  have hlength := congrArg (fun text => text.toList.length) h
  simp [configuredKey] at hlength

/-- The checksum Bazel reports for a result: inline, else in the table, else none. -/
def reportedChecksum (table : List Configuration) (configured : ConfiguredTarget) : String :=
  match (configured.configuration.map Configuration.checksum).filter (· ≠ "") with
  | some checksum => checksum
  | none =>
      ((table.find? fun configuration => configuration.id = configured.configurationId).map
        Configuration.checksum).getD ""

/-- The key a checksum gives a label. -/
def keyOf (label : String) : Option String → String
  | some checksum => configuredKey label checksum
  | none => label

theorem nonNullChecksum_eq_some {checksum found : String}
    (h : nonNullChecksum checksum = some found) :
    found = checksum ∧ checksum ≠ "" ∧ checksum ≠ "null" := by
  rw [nonNullChecksum] at h
  split_ifs at h with hne
  exact ⟨(Option.some.inj h).symm, hne⟩

theorem nonNullChecksum_of_ne {checksum : String} (hempty : checksum ≠ "") (hnull : checksum ≠ "null") :
    nonNullChecksum checksum = some checksum :=
  if_pos ⟨hempty, hnull⟩

theorem tableChecksum_eq (table : List Configuration) (id : Nat) :
    tableChecksum table id = nonNullChecksum
      (((table.find? fun configuration => configuration.id = id).map
        Configuration.checksum).getD "") := by
  rw [tableChecksum]
  cases table.find? fun configuration => configuration.id = id <;> rfl

/-- A reported checksum other than the null configuration's is the one that names the result. -/
theorem namingChecksum_of_reported {table : List Configuration} {configured : ConfiguredTarget}
    (hne : reportedChecksum table configured ≠ "null") :
    namingChecksum table configured = nonNullChecksum (reportedChecksum table configured) := by
  rw [reportedChecksum] at hne ⊢
  rw [namingChecksum]
  cases hinline : configured.configuration with
  | none => exact tableChecksum_eq table configured.configurationId
  | some configuration =>
      rw [hinline] at hne
      by_cases hempty : configuration.checksum = ""
      · simp only [Option.map_some, hempty, Option.filter, ne_eq, not_true_eq_false,
          decide_false, Bool.false_eq_true, if_false, Option.bind_some]
        exact tableChecksum_eq table configured.configurationId
      · simp only [Option.map_some, Option.filter, ne_eq, hempty, not_false_eq_true, decide_true,
          if_true, Option.bind_some] at hne ⊢
        rw [nonNullChecksum_of_ne hempty hne]
        rfl

/-- A result reported in the null configuration is never named by the text `null`. -/
theorem namingChecksum_ne_null (table : List Configuration) (configured : ConfiguredTarget) :
    namingChecksum table configured ≠ some "null" := by
  intro hnaming
  rcases Option.or_eq_some_iff.mp hnaming with hinline | ⟨-, htable⟩
  · obtain ⟨configuration, -, hchecksum⟩ := Option.bind_eq_some_iff.mp hinline
    obtain ⟨heq, -, hnull⟩ := nonNullChecksum_eq_some hchecksum
    exact hnull heq.symm
  · obtain ⟨configuration, -, hchecksum⟩ := Option.bind_eq_some_iff.mp htable
    obtain ⟨heq, -, hnull⟩ := nonNullChecksum_eq_some hchecksum
    exact hnull heq.symm

theorem targetName_named {target : Target} (checksum : Option String) {label : String}
    (hkind : target.type = .rule ∨ target.type = .generatedFile)
    (hlabel : targetName target = some label) :
    ∃ decoded, CqueryDecoder.named id target checksum = some decoded ∧
      targetName decoded = some (keyOf label checksum) := by
  rcases hkind with hkind | hkind
  · have hlower : lowerTarget target = some target := by
      rw [lowerTarget, hkind]
    obtain ⟨rule, hrule, rfl⟩ : ∃ rule, target.rule = some rule ∧ rule.name = label := by
      simpa [targetName, hkind] using hlabel
    rw [CqueryDecoder.named, hlower]
    refine ⟨_, rfl, ?_⟩
    cases checksum with
    | none => exact hlabel
    | some checksum => simp [configureTarget, hkind, targetName, hrule, keyOf]
  · have hlower : lowerTarget target = some target := by
      rw [lowerTarget, hkind]
    obtain ⟨file, hfile, rfl⟩ : ∃ file, target.generatedFile = some file ∧ file.name = label := by
      simpa [targetName, hkind] using hlabel
    rw [CqueryDecoder.named, hlower]
    refine ⟨_, rfl, ?_⟩
    cases checksum with
    | none => exact hlabel
    | some checksum => simp [configureTarget, hkind, targetName, hfile, keyOf]

/-- The encoding of an edge is the key its checksum gives when that is not the null
configuration's. -/
theorem encodeConfiguredInput_eq {input : ConfiguredRuleInput} {label : String}
    (hlabel : input.label = some label) :
    encodeConfiguredInput input =
      if input.configurationChecksum.getD "" = "null" then configuredKey label "null"
      else keyOf label (nonNullChecksum (input.configurationChecksum.getD "")) := by
  rw [encodeConfiguredInput, hlabel]
  cases hchecksum : input.configurationChecksum with
  | none => rfl
  | some checksum =>
      by_cases hempty : checksum = ""
      · subst hempty
        rfl
      · by_cases hnull : checksum = "null"
        · subst hnull
          rfl
        · simp [hempty, hnull, nonNullChecksum_of_ne hempty hnull, keyOf]

/-! ## The instance an edge finds -/

section Resolution

variable {D : Type}

/-- What an edge finds when it names the key of an instance that is in the table. -/
theorem resolveInput_of_key (state : HashState D) {key : String} {slot : LabelSlot D}
    (hslot : state.rules.get key = some slot) (hrule : slot.rule.isSome = true)
    (path : List String) :
    (state.resolveInput key (targetLabel key) none path).2 = state.resolving key slot ↔
      (state.rules.get (targetLabel key)).bind LabelSlot.source = none := by
  obtain ⟨node, hnode⟩ := Option.isSome_iff_exists.mp hrule
  have hresolving : state.resolving key slot =
      some (.rule key node ((state.prior slot).map (·.overall))) := by
    rw [HashState.resolving, hnode]
    rfl
  rw [HashState.resolveInput, HashState.inputLabelSlot]
  dsimp only
  cases hsource : (state.rules.get (targetLabel key)).bind LabelSlot.source with
  | some d => simp [hresolving]
  | none =>
      by_cases hbare : key = targetLabel key
      · rw [if_pos hbare, ← hbare, hslot, Option.bind_some, hresolving]
        simp
      · rw [if_neg hbare, hslot, Option.bind_some, hresolving]
        simp

/-- The naming of an edge agrees with the naming of the instance it points at, and the edge finds
that instance, exactly when the configuration is not reported as the null one and no source digest
is filed under the label the key is read as. -/
theorem configured_edge_finds_instance_iff {messages : List CqueryResult}
    (htable : WellFormedTable (messages.flatMap CqueryResult.configurations))
    {configured : ConfiguredTarget} (hmem : configured ∈ messages.flatMap CqueryResult.results)
    {target : Target} (htarget : configured.target = some target)
    (hkind : target.type = .rule ∨ target.type = .generatedFile) {label : String}
    (hlabel : targetName target = some label) {input : ConfiguredRuleInput}
    (hinput : input.label = some label)
    (hchecksum : input.configurationChecksum.getD "" =
      reportedChecksum (messages.flatMap CqueryResult.configurations) configured) :
    ∃ decoded ∈ decodeCqueryStream id messages, ∃ key, targetName decoded = some key ∧
      namedTarget id (messages.flatMap CqueryResult.configurations) configured = some decoded ∧
      ∀ (state : HashState D) (slot : LabelSlot D) (path : List String),
        state.rules.get key = some slot → slot.rule.isSome = true →
        (((encodeConfiguredInput input = key ∨ targetLabel (encodeConfiguredInput input) = key) ∧
          (state.resolveInput (encodeConfiguredInput input)
            (targetLabel (encodeConfiguredInput input)) none path).2 =
              state.resolving key slot) ↔
        input.configurationChecksum.getD "" ≠ "null" ∧
          (state.rules.get (targetLabel key)).bind LabelSlot.source = none) := by
  have hnamed := targetName_named
    (namingChecksum (messages.flatMap CqueryResult.configurations) configured) hkind hlabel
  obtain ⟨decoded, hdecoded, hkey⟩ := hnamed
  have hfound : namedTarget id (messages.flatMap CqueryResult.configurations) configured =
      some decoded := by
    rw [namedTarget, htarget, Option.bind_some, hdecoded]
  refine ⟨decoded, ?_, _, hkey, hfound, ?_⟩
  · apply (decodeCqueryStream_perm_named id messages htable).mem_iff.mpr
    exact List.mem_filterMap.mpr ⟨configured, hmem, hfound⟩
  intro state slot path hslot hrule
  rw [encodeConfiguredInput_eq hinput]
  by_cases hnull : input.configurationChecksum.getD "" = "null"
  · have hlabel' : targetLabel (configuredKey label "null") = configuredKey label "null" :=
      targetLabel_configuredKey_of_not_hex (by decide) (by decide)
    have hne : configuredKey label "null" ≠ keyOf label
        (namingChecksum (messages.flatMap CqueryResult.configurations) configured) := by
      cases hnaming : namingChecksum (messages.flatMap CqueryResult.configurations) configured with
      | none => exact configuredKey_ne_label label "null"
      | some checksum =>
          intro heq
          have hchars := congrArg String.toList heq
          simp only [keyOf, configuredKey, String.toList_append, List.append_assoc,
            List.append_cancel_left_eq] at hchars
          have hnull' : checksum = "null" := (String.toList_inj.mp hchars).symm
          exact namingChecksum_ne_null _ _ (hnull' ▸ hnaming)
    simp [hnull, hlabel', hne]
  · have hnaming : namingChecksum (messages.flatMap CqueryResult.configurations) configured =
        nonNullChecksum (input.configurationChecksum.getD "") := by
      rw [hchecksum]
      exact namingChecksum_of_reported (hchecksum ▸ hnull)
    rw [if_neg hnull, ← hnaming, resolveInput_of_key state hslot hrule path]
    simp [hnull]

end Resolution

/-! ## An instance in the null configuration -/

/-- One rule `//a:a` with its configuration reported inline. -/
def reportedInline (checksum : String) : CqueryResult :=
  { results := [⟨some { type := .rule, rule := some { name := "//a:a" } }, some ⟨0, checksum⟩, 0⟩] }

/-- A table with one rule. -/
def tableOf (key : String) : HashState Preimage :=
  { rules := SlotTable.empty.update key fun slot => { slot with rule := some key } }

theorem configured_edge_finds_checksummed_instance :
    ((tableOf "//a:a|abc123").resolveInput
      (encodeConfiguredInput ⟨some "//a:a", some "abc123"⟩)
      (targetLabel (encodeConfiguredInput ⟨some "//a:a", some "abc123"⟩)) none []).2 =
      (tableOf "//a:a|abc123").resolving "//a:a|abc123" ⟨some "//a:a|abc123", none, none⟩ := by
  obtain ⟨decoded, -, key, hname, hnamed, hfinds⟩ := @configured_edge_finds_instance_iff Preimage
    [reportedInline "abc123"] ⟨by decide, by decide⟩ _ (List.mem_singleton_self _) _ rfl (.inl rfl)
    _ rfl ⟨some "//a:a", some "abc123"⟩ rfl rfl
  obtain rfl : key = "//a:a|abc123" := by
    cases hnamed
    exact Option.some.inj hname.symm
  exact ((hfinds (tableOf "//a:a|abc123") ⟨some "//a:a|abc123", none, none⟩ []
    (by decide +kernel) rfl).mpr ⟨by decide, by decide +kernel⟩).2

/-- The decoder names the instance by its label, and the edge by the label and `null`: the edge
finds nothing. -/
theorem null_configuration_edge_misses_instance :
    (decodeCqueryStream id [reportedInline "null"]).map targetName = [some "//a:a"] ∧
      ¬ (encodeConfiguredInput ⟨some "//a:a", some "null"⟩ = "//a:a" ∨
        targetLabel (encodeConfiguredInput ⟨some "//a:a", some "null"⟩) = "//a:a") ∧
      ((tableOf "//a:a").resolveInput (encodeConfiguredInput ⟨some "//a:a", some "null"⟩)
        (targetLabel (encodeConfiguredInput ⟨some "//a:a", some "null"⟩)) none []).2.isNone = true := by
  refine ⟨by decide +kernel, by decide +kernel, by decide +kernel⟩

end BazelDiff
